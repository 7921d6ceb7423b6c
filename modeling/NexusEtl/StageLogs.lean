import NexusEtl.ErrorIsolation
import NexusEtl.EnrichFrame
import NexusEtl.MappingOutcome
import NexusEtl.SourceAdjacency

/-!
# What a stage writes to the diagnostics of a row

Each stage up to the matcher keeps the record of a row and appends errors and warnings
that name the stage. The diagnostics of the resolver name its stage too.
-/

set_option autoImplicit false

namespace NexusEtl
open NexusEtl.Library

/-- Diagnostics of one stage are appended. -/
def Grows (stage : DiagnosticStage) (old new : List DiagnosticItem) : Prop :=
  ∃ added, new = old ++ added ∧ ∀ d ∈ added, d.stage = stage

namespace Grows

variable {stage : DiagnosticStage} {old mid new : List DiagnosticItem}

theorem refl (stage : DiagnosticStage) (old : List DiagnosticItem) : Grows stage old old :=
  ⟨[],(List.append_nil old).symm,by simp⟩

theorem append (old : List DiagnosticItem) {added : List DiagnosticItem}
    (h : ∀ d ∈ added, d.stage = stage) : Grows stage old (old ++ added) := ⟨added,rfl,h⟩

theorem trans (h : Grows stage old mid) (h' : Grows stage mid new) : Grows stage old new := by
  obtain ⟨added,rfl,hadded⟩ := h
  obtain ⟨more,rfl,hmore⟩ := h'
  refine ⟨added ++ more,List.append_assoc _ _ _,fun d hd => ?_⟩
  rcases List.mem_append.mp hd with hd | hd
  · exact hadded d hd
  · exact hmore d hd

theorem isPrefix (h : Grows stage old new) : old <+: new := by
  obtain ⟨added,rfl,_⟩ := h
  exact List.prefix_append old added

theorem own (h : Grows stage [] new) : ∀ d ∈ new, d.stage = stage := by
  obtain ⟨added,rfl,hadded⟩ := h
  exact hadded

/-- A stage adds no diagnostics of another stage. -/
theorem avoids (h : Grows stage old new) {other : DiagnosticStage} (hne : stage ≠ other)
    (hold : ∀ d ∈ old, d.stage ≠ other) : ∀ d ∈ new, d.stage ≠ other := by
  obtain ⟨added,rfl,hadded⟩ := h
  intro d hd
  rcases List.mem_append.mp hd with hd | hd
  · exact hold d hd
  · rw [hadded d hd]
    exact hne

end Grows

/-- What a stage does with a row: the record stays, and its diagnostics are appended. -/
structure Logs {ρ σ : Type} (stage : DiagnosticStage) (before : TransformResult ρ)
    (after : TransformResult σ) : Prop where
  record : after.record = before.record
  errors : Grows stage before.errors after.errors
  warnings : Grows stage before.warnings after.warnings

section Logs
variable {ρ σ : Type} (stage : DiagnosticStage) (r : TransformResult ρ)

theorem Logs.refl : Logs stage r r := ⟨rfl,Grows.refl stage _,Grows.refl stage _⟩

theorem Logs.trans {τ : Type} {stage : DiagnosticStage} {a : TransformResult ρ}
    {b : TransformResult σ} {c : TransformResult τ} (h : Logs stage a b) (h' : Logs stage b c) :
    Logs stage a c :=
  ⟨h'.record.trans h.record,h.errors.trans h'.errors,h.warnings.trans h'.warnings⟩

theorem Logs.withoutRow : Logs stage r (r.withoutRow : TransformResult σ) :=
  ⟨rfl,Grows.refl stage _,Grows.refl stage _⟩

theorem Logs.dropRow {stage : DiagnosticStage} {errs : List DiagnosticItem}
    (h : ∀ e ∈ errs, e.stage = stage) : Logs stage r (r.dropRow errs : TransformResult σ) :=
  ⟨rfl,Grows.append _ h,Grows.refl stage _⟩

end Logs

@[simp] theorem diagWarning_stage (catalog : ErrorCatalog) (stage : DiagnosticStage)
    (code : String) (field message : Option String) (ref : Option RowRef)
    (details : Option Fields) (severity : Option DiagnosticSeverity) :
    (diagWarning catalog stage code field message ref details severity).stage = stage := rfl

/-! ## Issues of the rules -/

theorem appendDslIssues_grows (stage : DiagnosticStage) (catalog : ErrorCatalog)
    (ref : Option RowRef) (onError : OnError) (acc : Diagnosed) (issues : List DslIssue) :
    Grows stage acc.warnings (appendDslIssues stage catalog ref onError acc issues).warnings := by
  induction issues generalizing acc with
  | nil => exact Grows.refl stage _
  | cons issue issues ih =>
    have hone : Grows stage acc.warnings
        (appendDslIssue stage catalog ref onError acc issue).warnings := by
      unfold appendDslIssue
      split
      · exact Grows.append _ (by simp)
      · exact Grows.refl stage _
    exact hone.trans (ih _)

/-! ## Map, filter and normalize -/

namespace MapperCore

variable {core : MapperCore} {record : SourceRecord}

theorem diagnosedOf_grows (rules : List MappingRule) (acc : Diagnosed) :
    Grows .map acc.warnings (core.diagnosedOf record rules acc).warnings := by
  induction rules generalizing acc with
  | nil => exact Grows.refl .map _
  | cons rule rules ih =>
    rw [diagnosedOf_cons]
    exact (appendDslIssues_grows _ _ _ _ acc _).trans (ih _)

theorem validateSink_grows (row : Fields) (acc : Diagnosed) :
    Grows .map acc.warnings (core.validateSink record row acc).warnings := by
  unfold validateSink
  split
  · exact Grows.refl .map _
  · exact appendDslIssues_grows _ _ _ _ acc _

theorem metaDiagnosed_grows (row : Fields) (rules : List MetaRule) (acc : Diagnosed) :
    Grows .map acc.warnings (core.metaDiagnosed record row rules acc).warnings := by
  induction rules generalizing acc with
  | nil => exact Grows.refl .map _
  | cons rule rules ih => exact (appendDslIssues_grows _ _ _ _ acc _).trans (ih _)

/-- The warnings of a mapping are of the map stage. -/
theorem mapRecord_warnings {out : TransformResult Fields} (h : core.mapRecord record = .ok out) :
    ∀ w ∈ out.warnings, w.stage = .map := by
  rcases core.mapRecord_cases record with ⟨-,out',hout,-,hwarnings,-⟩ | ⟨-,exc,hexc⟩
  · rw [h] at hout
    cases hout
    have hgrows : Grows .map [] (core.collected record).warnings :=
      ((diagnosedOf_grows core.compiled.rules ⟨[],[]⟩).trans (validateSink_grows _ _)).trans
        (metaDiagnosed_grows _ _ _)
    rw [hwarnings]
    exact hgrows.own
  · rw [h] at hexc
    cases hexc

end MapperCore

theorem mapStage_logs (mapper : MapperCore) (catalog : ErrorCatalog) (collected : Enriching) :
    Logs .map collected (mapStage mapper catalog collected) := by
  have herrors := mapStage_appends mapper catalog collected
  unfold mapStage at herrors ⊢
  split
  · exact Logs.withoutRow .map collected
  · cases hm : mapper.mapRecord collected.record with
    | error exc => exact Logs.dropRow collected (by simp)
    | ok mapped =>
      rw [if_neg (by assumption), hm] at herrors
      exact ⟨(MapperCore.mapRecord_spec hm).1,herrors,
        Grows.append _ (MapperCore.mapRecord_warnings hm)⟩

namespace SourceTopologyFilterStage

/-- What the stage does with one result. -/
def passed (catalog : ErrorCatalog) (validation? : Option SourceTopologyValidationState)
    (result : TransformResult Fields) : TransformResult Fields :=
  match validation? with
  | none => result
  | some validation => if validation.dropped = [] then result else step catalog validation result

theorem run_eq (catalog : ErrorCatalog) (validation? : Option SourceTopologyValidationState)
    (source : List (TransformResult Fields)) :
    run catalog validation? source = source.map (passed catalog validation?) := by
  cases validation? with
  | none => exact (List.map_id source).symm
  | some validation =>
    unfold run passed
    dsimp only
    split
    · exact (List.map_id source).symm
    · rfl

theorem mark_logs (catalog : ErrorCatalog) (validation : SourceTopologyValidationState)
    (result : TransformResult Fields) (id : String) (verdict : SourceAnchoringVerdict) :
    Logs .topologyValidate result (mark catalog validation result id verdict) ∧
      (mark catalog validation result id verdict).matchKey = result.matchKey := by
  unfold mark
  dsimp only
  split
  · exact ⟨⟨rfl,Grows.refl _ _,Grows.append _ (by simp)⟩,rfl⟩
  · exact ⟨Logs.dropRow result (by simp),rfl⟩

theorem passed_logs (catalog : ErrorCatalog) (validation? : Option SourceTopologyValidationState)
    (result : TransformResult Fields) :
    Logs .topologyValidate result (passed catalog validation? result) ∧
      (passed catalog validation? result).matchKey = result.matchKey := by
  have hsame : Logs .topologyValidate result result ∧ result.matchKey = result.matchKey :=
    ⟨Logs.refl _ _,rfl⟩
  unfold passed
  split
  · exact hsame
  · split
    · exact hsame
    · unfold step
      split
      · exact hsame
      · unfold judge
        split
        · exact hsame
        · split
          · exact hsame
          · exact mark_logs catalog _ result _ _

end SourceTopologyFilterStage

namespace NormalizerCore

theorem applyRules_grows (core : NormalizerCore) (ref : Option RowRef)
    (rules : List NormalizeRule) (state : State) :
    Grows .normalize state.diagnosed.warnings
      (rules.foldl (core.applyRule ref) state).diagnosed.warnings := by
  induction rules generalizing state with
  | nil => exact Grows.refl .normalize _
  | cons rule rules ih =>
    have hone : Grows .normalize state.diagnosed.warnings
        (core.applyRule ref state rule).diagnosed.warnings := by
      unfold applyRule
      split
      · exact Grows.refl .normalize _
      · exact appendDslIssues_grows _ _ _ _ _ _
    exact hone.trans (ih _)

end NormalizerCore

theorem normalizeStage_logs (normalizer : NormalizerCore) (collected : Enriching) :
    Logs .normalize collected (normalizeStage normalizer collected) ∧
      (normalizeStage normalizer collected).matchKey = collected.matchKey := by
  have herrors := normalizeStage_appends normalizer collected
  unfold normalizeStage at herrors ⊢
  split
  · exact ⟨Logs.refl _ _,rfl⟩
  · rw [if_neg (by assumption)] at herrors
    unfold NormalizerCore.normalize at herrors ⊢
    split
    · exact ⟨Logs.refl _ _,rfl⟩
    · rename_i row hrow
      rw [hrow] at herrors
      have hrules := normalizer.applyRules_grows collected.rowRef normalizer.compiled.rules
        ⟨row,[],⟨[],[]⟩⟩
      have hsink := appendDslIssues_grows .normalize normalizer.catalog collected.rowRef
        normalizer.compiled.onError (normalizer.compiled.rules.foldl
          (normalizer.applyRule collected.rowRef) ⟨row,[],⟨[],[]⟩⟩).diagnosed
        (normalizer.sinkIssues (normalizer.compiled.rules.foldl
          (normalizer.applyRule collected.rowRef) ⟨row,[],⟨[],[]⟩⟩))
      exact ⟨⟨rfl,herrors,Grows.append _ (hrules.trans hsink).own⟩,rfl⟩

/-! ## Enrich -/

namespace EnricherCore

variable {D : Type} (core : EnricherCore D) (deps : D)

theorem reportByPolicy_warnings (builder : Enriching) (op : EnrichmentOperation D)
    (outcome : EnrichOutcome) (code message : String) (field : Option String)
    (reason : String) (details : Fields) :
    ∀ w ∈ (core.reportByPolicy builder op outcome code message field reason details).warnings,
      w.stage = .enrich := by
  intro w hw
  simp only [reportByPolicy] at hw
  split at hw
  · rw [List.mem_singleton.mp hw]
    rfl
  · cases hw

theorem applyTargets_warnings (op : EnrichmentOperation D) (candidate : CandidateValue)
    (mode : MergeMode) (fields : List String) (state : EnrichState)
    (events : List EnrichEvent) :
    ∀ w ∈ (core.applyTargets op candidate mode fields state events).2.warnings,
      w.stage = .enrich := by
  induction fields generalizing state events with
  | nil => exact fun _ hw => by cases hw
  | cons field fields ih =>
    simp only [applyTargets]
    split
    · exact ih _ _
    · split
      · exact core.reportByPolicy_warnings _ _ _ _ _ _ _ _
      · exact ih _ _

theorem decideCandidates_warnings (op : EnrichmentOperation D) (keys : Fields)
    (state : EnrichState) (collected : Collected) :
    ∀ w ∈ (core.decideCandidates op keys state collected).2.warnings, w.stage = .enrich := by
  unfold decideCandidates
  split
  · exact core.reportByPolicy_warnings _ _ _ _ _ _ _ _
  · simp only
    split
    · dsimp only
      split
      · split
        · exact core.reportByPolicy_warnings _ _ _ _ _ _ _ _
        · exact core.reportByPolicy_warnings _ _ _ _ _ _ _ _
      · exact core.reportByPolicy_warnings _ _ _ _ _ _ _ _
    · exact core.reportByPolicy_warnings _ _ _ _ _ _ _ _
    · exact core.applyTargets_warnings op _ _ _ state []

theorem executeOperation_warnings {ctx : EnrichContext} {op : EnrichmentOperation D}
    {state next : EnrichState} {report : OperationReport}
    (h : core.executeOperation deps ctx op state = .ok (next,report)) :
    ∀ w ∈ report.warnings, w.stage = .enrich := by
  unfold executeOperation at h
  split at h
  · cases h
    exact core.reportByPolicy_warnings _ _ _ _ _ _ _ _
  · obtain ⟨keys,-,h⟩ := bind_ok_iff.mp h
    split at h
    · cases h
      exact core.reportByPolicy_warnings _ _ _ _ _ _ _ _
    · obtain ⟨collected,-,h⟩ := bind_ok_iff.mp h
      have hw := core.decideCandidates_warnings op keys state collected
      rw [Except.ok.inj h] at hw
      exact hw

@[simp] theorem setFieldValue_warnings (builder : Enriching) (field : String) (v : Value) :
    (setFieldValue builder field v).warnings = builder.warnings := by
  unfold setFieldValue
  split
  · rfl
  · split <;> split <;> rfl

@[simp] theorem setFieldValue_record (builder : Enriching) (field : String) (v : Value) :
    (setFieldValue builder field v).record = builder.record := by
  unfold setFieldValue
  split
  · rfl
  · split <;> split <;> rfl

theorem setFieldValue_matchKey {builder : Enriching} {field : String} (v : Value)
    (h : field ≠ "match_key") : (setFieldValue builder field v).matchKey = builder.matchKey := by
  unfold setFieldValue
  rw [if_neg h]
  split <;> split <;> rfl

/-- The operations of the enricher write over no key such as this. -/
def KeepsKey (key : String) : Prop :=
  ∀ op ∈ core.spec.operations, op.targets = ["match_key"] → ∀ candidate,
    MergeEngine.shouldApply core.spec.authoritativeSources (.str key) candidate (core.modeOf op) =
      false

/-- One turn of the loop: what it does to the record, to the diagnostics and to the key. -/
theorem stepOperation_logs {op : EnrichmentOperation D} {run next : RunState} {stop : Bool}
    (h : core.stepOperation deps core.context op run = .ok (next,stop)) :
    Logs .enrich run.state.builder next.state.builder ∧
      (next.state.builder.matchKey = run.state.builder.matchKey ∨ op.targets = ["match_key"] ∧
        ∃ candidate, MergeEngine.shouldApply core.spec.authoritativeSources
          (optStr run.state.builder.matchKey) candidate (core.modeOf op) = true) := by
  unfold stepOperation at h
  split at h
  · obtain ⟨⟨state,report⟩,hexec,h⟩ := bind_ok_iff.mp h
    obtain ⟨events,-,h⟩ := bind_ok_iff.mp h
    obtain ⟨fields,-,h⟩ := bind_ok_iff.mp h
    cases h
    have herrors := (core.executeOperation_spec deps hexec).2
    have hwarnings := core.executeOperation_warnings deps hexec
    rcases core.executeOperation_framed deps hexec with ⟨rfl,-⟩ | ⟨field,candidate,happlies⟩
    · exact ⟨⟨rfl,Grows.append _ herrors,Grows.append _ hwarnings⟩,.inl rfl⟩
    · have hbuilder : state.builder = setFieldValue run.state.builder field candidate.value :=
        happlies.builder
      refine ⟨⟨?_,?_,?_⟩,?_⟩
      · simp [hbuilder]
      · exact ⟨report.errors,by simp [hbuilder],herrors⟩
      · exact ⟨report.warnings,by simp [hbuilder],hwarnings⟩
      · by_cases hfield : field = "match_key"
        · subst hfield
          exact .inr ⟨happlies.target,candidate,happlies.allowed⟩
        · exact .inl (by simp [hbuilder, setFieldValue_matchKey _ hfield])
  · cases h
    exact ⟨Logs.refl _ _,.inl rfl⟩

theorem runOperations_logs {ops : List (EnrichmentOperation D)} {run final : RunState}
    (h : core.runOperations deps core.context ops run = .ok final) :
    Logs .enrich run.state.builder final.state.builder :=
  core.runOperations_keeps deps
    (P := fun other => Logs .enrich run.state.builder other.state.builder)
    (fun _ _ _ _ hstep hrun => Logs.trans hrun (core.stepOperation_logs deps hstep).1)
    (core.start_mem_visited deps _ _) h (Logs.refl _ _)

/-- A key that no operation writes over is there at the end of the loop. -/
theorem runOperations_matchKey {ops : List (EnrichmentOperation D)} {run final : RunState}
    {key : String} (hkeeps : core.KeepsKey key) (hops : ∀ op ∈ ops, op ∈ core.spec.operations)
    (h : core.runOperations deps core.context ops run = .ok final)
    (hkey : run.state.builder.matchKey = some key) :
    final.state.builder.matchKey = some key := by
  induction ops generalizing run with
  | nil =>
    cases h
    exact hkey
  | cons op ops ih =>
    obtain ⟨⟨next,stop⟩,hstep,h⟩ := bind_ok_iff.mp h
    have hnext : next.state.builder.matchKey = some key := by
      rcases (core.stepOperation_logs deps hstep).2 with hsame | ⟨htarget,candidate,happlied⟩
      · rw [hsame, hkey]
      · rw [hkey] at happlied
        rw [optStr, hkeeps op (hops op List.mem_cons_self) htarget candidate] at happlied
        cases happlied
    cases stop with
    | true =>
      cases h
      exact hnext
    | false => exact ih (fun op hop => hops op (List.mem_cons_of_mem _ hop)) h hnext

theorem startBuilder_logs (result : Enriching) :
    Logs .enrich result (core.startBuilder result) ∧
      (core.startBuilder result).matchKey = result.matchKey := by
  unfold startBuilder
  dsimp only
  split
  · exact ⟨⟨rfl,Grows.refl _ _,Grows.append _ (by simp [makeWarning])⟩,rfl⟩
  · exact ⟨⟨rfl,Grows.refl _ _,Grows.refl _ _⟩,rfl⟩

theorem storeSecrets_logs (builder : Enriching) :
    Logs .enrich builder (core.storeSecrets deps builder) ∧
      (core.storeSecrets deps builder).matchKey = builder.matchKey := by
  unfold storeSecrets
  split
  · exact ⟨Logs.refl _ _,rfl⟩
  · split
    · exact ⟨⟨rfl,Grows.append _ (by simp [makeError]),Grows.refl _ _⟩,rfl⟩
    · dsimp only
      split
      · exact ⟨⟨rfl,Grows.refl _ _,Grows.refl _ _⟩,rfl⟩
      · split
        · exact ⟨⟨rfl,Grows.refl _ _,Grows.refl _ _⟩,rfl⟩
        · exact ⟨⟨rfl,Grows.append _ (by simp [makeError]),Grows.refl _ _⟩,rfl⟩

end EnricherCore

theorem enrichStage_logs {D : Type} (enricher : EnricherCore D) (deps : D)
    (catalog : ErrorCatalog) (collected : Enriching) :
    Logs .enrich collected (enrichStage enricher deps catalog collected) ∧
      ∀ key, collected.matchKey = some key → collected.row = none ∨ enricher.KeepsKey key →
        (enrichStage enricher deps catalog collected).matchKey = some key := by
  unfold enrichStage
  cases he : enricher.enrich deps collected with
  | error exc => exact ⟨Logs.dropRow collected (by simp),fun _ hkey _ => hkey⟩
  | ok enriched =>
    unfold EnricherCore.enrich at he
    split at he
    · cases he
      exact ⟨⟨rfl,Grows.append _ (by simp),Grows.refl _ _⟩,fun _ hkey _ => hkey⟩
    · rename_i row hrow
      obtain ⟨final,hrun,he⟩ := bind_ok_iff.mp he
      cases he
      have hstart := enricher.startBuilder_logs collected
      have hend := enricher.storeSecrets_logs deps final.state.builder
      have hloop := enricher.runOperations_logs deps hrun
      refine ⟨?_,fun key hkey hkept => ?_⟩
      · have hall := Logs.trans (Logs.trans hstart.1 hloop) hend.1
        have herrors : Grows .enrich collected.errors (enricher.finish deps final).errors :=
          hall.errors
        exact ⟨hall.record,by simpa [diagnosticBoundary] using herrors,hall.warnings⟩
      · have hkeeps := hkept.resolve_left (by simp [hrow])
        exact hend.2.trans (enricher.runOperations_matchKey deps hkeeps (fun _ hop => hop) hrun
          (hstart.2.trans hkey))

/-! ## Match -/

namespace MatchCore

variable (core : MatchCore)

theorem matchRow_logs {enriched : TransformResult Fields} {matched : TransformResult MatchedRow}
    (h : core.matchRow enriched = .ok matched) :
    Logs .matching enriched matched ∧ matched.matchKey = enriched.matchKey := by
  rcases core.matchRow_cases h with ⟨errs,herrs,rfl⟩ | ⟨_,_,_,_,_,_,hs⟩
  · exact ⟨⟨rfl,Grows.append _ herrs,Grows.refl _ _⟩,rfl⟩
  · rw [hs.result]
    exact ⟨⟨rfl,Grows.refl _ _,Grows.refl _ _⟩,rfl⟩

theorem applyOutcome_logs (matched : TransformResult MatchedRow) (row : MatchedRow)
    (outcome : DedupOutcome) :
    Logs .matching matched (core.applyOutcome matched row outcome) ∧
      (core.applyOutcome matched row outcome).matchKey = matched.matchKey := by
  have hdropped : ∀ (reason : String) (warns errs : List DiagnosticItem),
      (∀ w ∈ warns, w.stage = .matching) → (∀ e ∈ errs, e.stage = .matching) →
      Logs .matching matched (dropMatchedRow matched reason warns errs) ∧
        (dropMatchedRow matched reason warns errs).matchKey = matched.matchKey :=
    fun _ _ _ hwarns herrs => ⟨⟨rfl,Grows.append _ herrs,Grows.append _ hwarns⟩,rfl⟩
  cases outcome with
  | first => exact ⟨Logs.refl _ _,rfl⟩
  | duplicate => exact hdropped _ _ _ (by simp [duplicateWarning]) (by simp)
  | conflict =>
    unfold applyOutcome
    dsimp only
    split
    · exact hdropped _ _ _ (by simp [conflictWarning]) (by simp)
    · exact hdropped _ _ _ (by simp) (by simp [conflictError])

theorem dedup_logs (store : DedupStore) (matched : TransformResult MatchedRow) :
    Logs .matching matched (core.dedup store matched).1 ∧
      (core.dedup store matched).1.matchKey = matched.matchKey := by
  unfold dedup
  split
  · exact ⟨Logs.refl _ _,rfl⟩
  · split
    · exact ⟨Logs.refl _ _,rfl⟩
    · split
      · exact ⟨Logs.refl _ _,rfl⟩
      · exact core.applyOutcome_logs matched _ _

end MatchCore

theorem matchStage_logs (core : MatchCore) (catalog : ErrorCatalog) (store : DedupStore)
    (enriched : TransformResult Fields) :
    Logs .matching enriched (matchStage core catalog store enriched).1 ∧
      (matchStage core catalog store enriched).1.matchKey = enriched.matchKey := by
  unfold matchStage
  split
  · exact ⟨Logs.withoutRow _ _,rfl⟩
  · split
    · exact ⟨Logs.dropRow enriched (by simp),rfl⟩
    · rename_i result h
      obtain ⟨matched,hm,h⟩ := bind_ok_iff.mp h
      cases h
      obtain ⟨hmatched,hkey⟩ := core.matchRow_logs hm
      obtain ⟨hdedup,hkept⟩ := core.dedup_logs store matched
      exact ⟨hmatched.trans hdedup,hkept.trans hkey⟩

/-! ## Resolve -/

namespace ResolveCore

variable {core : ResolveCore} {db : IdentityDb} {call : ResolveCall} {s : LinkState}

theorem createPendingLink_grows (rule : LinkFieldRule) (lookupKey reason : Option String) :
    Grows .resolve s.warnings (core.createPendingLink call rule lookupKey reason s).warnings := by
  unfold createPendingLink
  dsimp only
  split
  · exact Grows.refl _ _
  · exact Grows.append _ (by simp)

theorem settleLink_grows (rule : LinkFieldRule) (lookupKey resolvedId reason : Option String) :
    Grows .resolve s.warnings
      (core.settleLink call rule lookupKey resolvedId reason s).2.warnings := by
  unfold settleLink
  split
  · unfold setLink
    dsimp only
    split <;> exact Grows.refl _ _
  · split
    · exact Grows.refl _ _
    · exact createPendingLink_grows rule lookupKey reason

theorem resolveLink_grows (rule : LinkFieldRule) :
    Grows .resolve s.warnings (core.resolveLink db call rule s).2.warnings := by
  unfold resolveLink
  split
  · exact Grows.refl _ _
  · dsimp only
    split
    · exact Grows.refl _ _
    · exact settleLink_grows rule _ _ _
    · split
      · exact settleLink_grows rule _ _ _
      · exact Grows.refl _ _
      · exact createPendingLink_grows rule _ _

theorem resolveLinkLoop_grows (rules : List LinkFieldRule) :
    Grows .resolve s.warnings (core.resolveLinkLoop db call rules s).2.warnings := by
  induction rules generalizing s with
  | nil => exact Grows.refl _ _
  | cons rule rules ih =>
    have hstep : Grows .resolve s.warnings (core.resolveLink db call rule s).2.warnings :=
      resolveLink_grows rule
    unfold resolveLinkLoop
    split
    all_goals
      rename_i heq
      rw [heq] at hstep
    · exact hstep.trans ih
    · exact hstep
    · exact hstep

theorem resolveLinks_grows :
    Grows .resolve s.warnings (core.resolveLinks db call s).2.warnings := by
  unfold resolveLinks
  split
  · exact Grows.refl _ _
  · split
    · exact Grows.refl _ _
    · exact resolveLinkLoop_grows _

theorem finish_warnings {mutated : List String} {r : Resolution}
    (hs : ∀ e ∈ s.errors, e.stage = .resolve)
    (h : (core.finish call mutated s).result = .ok r) : r.warnings = s.warnings := by
  rcases @finish_cases core call s mutated hs with
    ⟨result,heq,hdropped⟩ | ⟨row,-,heq⟩
  · rw [heq] at h
    exact (hdropped r h).2.1
  · rcases emitted_cases core call s row with ⟨-,-,hemitted⟩ | ⟨-,hemitted⟩ <;>
    · rw [heq, hemitted] at h
      cases h
      rfl

theorem resolveAccepted_warnings {r : Resolution}
    (h : (core.resolveAccepted db call).result = .ok r) : ∀ w ∈ r.warnings, w.stage = .resolve := by
  unfold resolveAccepted at h
  split at h
  · cases h
  · rename_i desired mutated _
    have htraced : core.Traced db call desired
        (core.resolveLinks db call (LinkState.start db.pending desired)).2 :=
      Traced.init.resolveLinks
    have hgrows : Grows .resolve [] (core.resolveLinks db call
        (LinkState.start db.pending desired)).2.warnings := resolveLinks_grows
    split at h
    · cases h
    · rename_i heq
      rw [heq] at htraced hgrows
      rw [finish_warnings htraced.stages h]
      exact hgrows.own

/-- The warnings of the resolver are of its stage. -/
theorem resolve_warnings {r : Resolution} (h : (core.resolve db call).result = .ok r) :
    ∀ w ∈ r.warnings, w.stage = .resolve := by
  unfold resolve at h
  split at h
  · cases h
    exact fun _ hw => by cases hw
  · cases h
    exact fun _ hw => by cases hw
  · exact resolveAccepted_warnings h
  · exact resolveAccepted_warnings h

end ResolveCore

end NexusEtl
