import NexusEtl.StageLogs

/-!
# The history of a row

A stage that keeps the history of a row hands its record, its key and its diagnostics on
and writes after them. The history then lasts over any sequence of stages. Three stages can
break it: the mapper starts without a key, an enrichment may write over one, and the
resolver starts new lists of diagnostics for the rows that still have their row.
-/

set_option autoImplicit false

namespace NexusEtl
open NexusEtl.Library

/-- What a later result still shows of an earlier one. -/
structure CarriesOn {ρ σ : Type} (before : TransformResult ρ) (after : TransformResult σ) :
    Prop where
  record : after.record = before.record
  errors : before.errors <+: after.errors
  warnings : before.warnings <+: after.warnings
  matchKey : ∀ key, before.matchKey = some key → after.matchKey = some key

namespace CarriesOn

theorem trans {ρ σ τ : Type} {a : TransformResult ρ} {b : TransformResult σ}
    {c : TransformResult τ} (h : CarriesOn a b) (h' : CarriesOn b c) : CarriesOn a c where
  record := h'.record.trans h.record
  errors := h.errors.trans h'.errors
  warnings := h.warnings.trans h'.warnings
  matchKey key hkey := h'.matchKey key (h.matchKey key hkey)

instance : Trans (@CarriesOn Unit Unit) (@CarriesOn Unit Unit) (@CarriesOn Unit Unit) :=
  ⟨CarriesOn.trans⟩

theorem of_logs {ρ σ : Type} {stage : DiagnosticStage} {before : TransformResult ρ}
    {after : TransformResult σ} (h : Logs stage before after)
    (hkey : ∀ key, before.matchKey = some key → after.matchKey = some key) :
    CarriesOn before after := ⟨h.record,h.errors.isPrefix,h.warnings.isPrefix,hkey⟩

end CarriesOn

/-- A result without the row, whose type changes on the way. -/
def bare {ρ : Type} (r : TransformResult ρ) : TransformResult Unit := r.withoutRow

theorem carriesOn_bare {ρ σ : Type} {before : TransformResult ρ} {after : TransformResult σ} :
    CarriesOn (bare before) (bare after) ↔ CarriesOn before after :=
  ⟨fun h => ⟨h.record,h.errors,h.warnings,h.matchKey⟩,
    fun h => ⟨h.record,h.errors,h.warnings,h.matchKey⟩⟩

/-- No diagnostics of a result are of the resolve stage. -/
def Unresolved {ρ : Type} (r : TransformResult ρ) : Prop :=
  (∀ e ∈ r.errors, e.stage ≠ .resolve) ∧ ∀ w ∈ r.warnings, w.stage ≠ .resolve

theorem Logs.unresolved {ρ σ : Type} {stage : DiagnosticStage} {before : TransformResult ρ}
    {after : TransformResult σ} (h : Logs stage before after) (hne : stage ≠ .resolve)
    (hbefore : Unresolved before) : Unresolved after :=
  ⟨h.errors.avoids hne hbefore.1,h.warnings.avoids hne hbefore.2⟩

/-! ## The stages -/

/-- The mapper starts a result of its own, without a key. -/
theorem mapStage_matchKey (mapper : MapperCore) (catalog : ErrorCatalog) (collected : Enriching) :
    ((collected.errors = [] ∧ mapper.MapsCleanly collected.record) ∧
        (mapStage mapper catalog collected).matchKey = none) ∨
      ¬(collected.errors = [] ∧ mapper.MapsCleanly collected.record) ∧
        (mapStage mapper catalog collected).matchKey = collected.matchKey := by
  unfold mapStage
  by_cases herrors : collected.errors = []
  · rw [if_neg (not_not.mpr herrors)]
    rcases mapper.mapRecord_cases collected.record with
      ⟨hclean,out,hout,-⟩ | ⟨hclean,exc,hexc⟩
    · rw [hout]
      exact .inl ⟨⟨herrors,hclean⟩,(MapperCore.mapRecord_spec hout).2.2.1⟩
    · rw [hexc]
      exact .inr ⟨fun h => hclean h.2,rfl⟩
  · rw [if_pos herrors]
    exact .inr ⟨fun h => herrors h.1,rfl⟩

theorem mapStage_carriesOn_iff (mapper : MapperCore) (catalog : ErrorCatalog)
    (collected : Enriching) :
    CarriesOn collected (mapStage mapper catalog collected) ↔ collected.matchKey = none ∨
      collected.errors ≠ [] ∨ ¬mapper.MapsCleanly collected.record := by
  have hlogs := mapStage_logs mapper catalog collected
  rw [← not_and_or]
  rcases mapStage_matchKey mapper catalog collected with ⟨hmapped,hnone⟩ | ⟨hnot,hkept⟩
  · simp only [hmapped, and_self, not_true_eq_false, or_false]
    constructor
    · intro h
      cases hkey : collected.matchKey with
      | none => rfl
      | some key => exact (h.matchKey key hkey).symm.trans hnone
    · intro h
      exact CarriesOn.of_logs hlogs fun key hkey => by rw [h] at hkey; cases hkey
  · simp only [hnot, not_false_eq_true, or_true, iff_true]
    exact CarriesOn.of_logs hlogs fun key hkey => hkept.trans hkey

theorem resolveRow_warnings {stage : ResolveStage} {clock : Clock} {db : IdentityDb}
    {m : TransformResult MatchedRow} (h : m.row.isSome) :
    ∀ w ∈ (stage.resolveRow clock db m).1.warnings, w.stage = .resolve := by
  intro w hw
  obtain ⟨row,hrow⟩ := Option.isSome_iff_exists.mp h
  simp only [ResolveStage.resolveRow, hrow] at hw
  cases hres : (stage.resolver.resolve db (stage.callOf m row clock)).result with
  | error exc => simp [hres, ResolveStage.resultOf, diagnosticBoundary] at hw
  | ok r =>
    simp only [hres, ResolveStage.resultOf, diagnosticBoundary] at hw
    exact ResolveCore.resolve_warnings hres w hw

theorem resolveRow_kept (stage : ResolveStage) (clock : Clock) (db : IdentityDb)
    (m : TransformResult MatchedRow) :
    (stage.resolveRow clock db m).1.record = m.record ∧
      (stage.resolveRow clock db m).1.matchKey = m.matchKey := by
  unfold ResolveStage.resolveRow
  split
  · exact ⟨rfl,rfl⟩
  · dsimp only
    unfold ResolveStage.resultOf
    split <;> exact ⟨rfl,rfl⟩

theorem resolveRow_carriesOn {stage : ResolveStage} {clock : Clock} {db : IdentityDb}
    {m : TransformResult MatchedRow} (h : m.row = none ∨ m.errors = [] ∧ m.warnings = []) :
    CarriesOn m (stage.resolveRow clock db m).1 := by
  obtain ⟨hrecord,hkey⟩ := resolveRow_kept stage clock db m
  have hkept : m.errors <+: (stage.resolveRow clock db m).1.errors ∧
      m.warnings <+: (stage.resolveRow clock db m).1.warnings := by
    rcases h with hrow | ⟨herrors,hwarnings⟩
    · unfold ResolveStage.resolveRow
      rw [hrow]
      exact ⟨List.prefix_rfl,List.prefix_rfl⟩
    · rw [herrors, hwarnings]
      exact ⟨List.nil_prefix,List.nil_prefix⟩
  exact ⟨hrecord,hkept.1,hkept.2,fun key h => hkey.trans h⟩

/-- A row that still has its row carries its history on only when there is none to carry. -/
theorem CarriesOn.resolved {stage : ResolveStage} {clock : Clock} {db : IdentityDb}
    {m : TransformResult MatchedRow} (h : CarriesOn m (stage.resolveRow clock db m).1)
    (hrow : m.row.isSome) (herrors : ∀ e ∈ m.errors, e.stage ≠ .resolve)
    (hwarnings : ∀ w ∈ m.warnings, w.stage ≠ .resolve) : m.errors = [] ∧ m.warnings = [] := by
  constructor
  · exact List.eq_nil_iff_forall_not_mem.mpr fun e he =>
      herrors e he (resolveRow_stage hrow e (h.errors.subset he))
  · exact List.eq_nil_iff_forall_not_mem.mpr fun w hw =>
      hwarnings w hw (resolveRow_warnings hrow w (h.warnings.subset hw))

/-- `ResolveContextStage.run`: the batch index, and all records as they came. -/
def resolveContext (resolver : ResolveCore) (records : List (TransformResult MatchedRow)) :
    BatchIndex × List (TransformResult MatchedRow) := (resolver.buildBatchIndex records,records)

/-- A result at a stage, with the core of the stage and what the core reads. -/
inductive StageStep (D : Type)
  | map (mapper : MapperCore) (catalog : ErrorCatalog) (collected : Enriching)
  | sourceTopologyFilter (catalog : ErrorCatalog)
      (validation? : Option SourceTopologyValidationState) (result : TransformResult Fields)
  | normalize (normalizer : NormalizerCore) (collected : Enriching)
  | enrich (enricher : EnricherCore D) (deps : D) (catalog : ErrorCatalog) (collected : Enriching)
  | matching (matcher : MatchCore) (catalog : ErrorCatalog) (store : DedupStore)
      (enriched : TransformResult Fields)
  | resolveContext (matched : TransformResult MatchedRow)
  | resolve (stage : ResolveStage) (clock : Clock) (db : IdentityDb)
      (matched : TransformResult MatchedRow)

namespace StageStep

variable {D : Type}

def input : StageStep D → TransformResult Unit
  | .map _ _ collected => bare collected
  | .sourceTopologyFilter _ _ result => bare result
  | .normalize _ collected => bare collected
  | .enrich _ _ _ collected => bare collected
  | .matching _ _ _ enriched => bare enriched
  | .resolveContext matched => bare matched
  | .resolve _ _ _ matched => bare matched

def output : StageStep D → TransformResult Unit
  | .map mapper catalog collected => bare (mapStage mapper catalog collected)
  | .sourceTopologyFilter catalog validation? result =>
    bare (SourceTopologyFilterStage.passed catalog validation? result)
  | .normalize normalizer collected => bare (normalizeStage normalizer collected)
  | .enrich enricher deps catalog collected => bare (enrichStage enricher deps catalog collected)
  | .matching matcher catalog store enriched => bare (matchStage matcher catalog store enriched).1
  | .resolveContext matched => bare matched
  | .resolve stage clock db matched => bare (stage.resolveRow clock db matched).1

/-- The history is safe at a stage. -/
def Clear : StageStep D → Prop
  | .map mapper _ collected => collected.matchKey = none ∨ collected.errors ≠ [] ∨
    ¬mapper.MapsCleanly collected.record
  | .enrich enricher _ _ collected => ∀ key, collected.matchKey = some key →
    collected.row = none ∨ enricher.KeepsKey key
  | .resolve _ _ _ matched => matched.row = none ∨ matched.errors = [] ∧ matched.warnings = []
  | _ => True

/-- One stage: where the history is safe, the result that comes out carries it on. -/
theorem carriesOn {s : StageStep D} (h : s.Clear) : CarriesOn s.input s.output := by
  cases s with
  | map mapper catalog collected =>
    exact carriesOn_bare.mpr ((mapStage_carriesOn_iff mapper catalog collected).mpr h)
  | sourceTopologyFilter catalog validation? result =>
    obtain ⟨hlogs,hkey⟩ := SourceTopologyFilterStage.passed_logs catalog validation? result
    exact carriesOn_bare.mpr (CarriesOn.of_logs hlogs fun key h => hkey.trans h)
  | normalize normalizer collected =>
    obtain ⟨hlogs,hkey⟩ := normalizeStage_logs normalizer collected
    exact carriesOn_bare.mpr (CarriesOn.of_logs hlogs fun key h => hkey.trans h)
  | enrich enricher deps catalog collected =>
    obtain ⟨hlogs,hkeys⟩ := enrichStage_logs enricher deps catalog collected
    exact carriesOn_bare.mpr (CarriesOn.of_logs hlogs fun key hkey => hkeys key hkey (h key hkey))
  | matching matcher catalog store enriched =>
    obtain ⟨hlogs,hkey⟩ := matchStage_logs matcher catalog store enriched
    exact carriesOn_bare.mpr (CarriesOn.of_logs hlogs fun key h => hkey.trans h)
  | resolveContext matched => exact ⟨rfl,List.prefix_rfl,List.prefix_rfl,fun _ h => h⟩
  | resolve stage clock db matched => exact carriesOn_bare.mpr (resolveRow_carriesOn h)

/-- The results along a sequence of stages. -/
def trail : List (StageStep D) → List (TransformResult Unit)
  | [] => []
  | s::steps => s.input::(s::steps).map output

/-- Over a sequence of stages in which the history is safe at each, every result carries on
all earlier ones. -/
theorem trail_carriesOn {steps : List (StageStep D)}
    (hlinked : steps.IsChain fun s t => s.output = t.input) (hclear : ∀ s ∈ steps, s.Clear) :
    (trail steps).Pairwise CarriesOn := by
  rw [← List.isChain_iff_pairwise]
  induction steps with
  | nil => exact List.IsChain.nil
  | cons s steps ih =>
    have hstep := carriesOn (hclear s List.mem_cons_self)
    have hrest := fun t ht => hclear t (List.mem_cons_of_mem s ht)
    cases steps with
    | nil => exact List.isChain_cons_cons.mpr ⟨hstep,List.IsChain.singleton _⟩
    | cons t steps =>
      obtain ⟨hlink,hlinked⟩ := List.isChain_cons_cons.mp hlinked
      have hnext := ih hlinked hrest
      rw [trail, ← hlink] at hnext
      exact List.isChain_cons_cons.mpr ⟨hstep,hnext⟩

end StageStep

/-! ## A planning run -/

/-- The cores of a planning run, with the verdicts on the nodes of the source. -/
structure PlanPipeline (D : Type) extends Pipeline D where
  validation : Option SourceTopologyValidationState

namespace PlanPipeline

variable {D : Type} (p : PlanPipeline D) (deps : Nat → D) (store : DedupStore)
  (source : List Enriching)

def filtered : List Enriching :=
  SourceTopologyFilterStage.run p.catalog p.validation (p.mapped source)

def normalized : List Enriching := (p.filtered source).map (normalizeStage p.normalizer)

def enriched : List Enriching :=
  (p.normalized source).mapIdx fun k r => enrichStage p.enricher (deps k) p.catalog r

def matched : List (TransformResult MatchedRow) :=
  matchStream p.matcher p.catalog store (p.enriched deps source)

def contextualized : List (TransformResult MatchedRow) :=
  (resolveContext p.resolver (p.matched deps store source)).2

/-- The results of one position, from the source to the plan. -/
def history (results : List (TransformResult ResolvedRow)) (k : Nat) :
    List (TransformResult Unit) :=
  [source[k]?.map bare,(p.mapped source)[k]?.map bare,(p.filtered source)[k]?.map bare,
    (p.normalized source)[k]?.map bare,(p.enriched deps source)[k]?.map bare,
    (p.matched deps store source)[k]?.map bare,(p.contextualized deps store source)[k]?.map bare,
    results[k]?.map bare].filterMap id

/-- What the stages make of one result of the source. -/
def atMap (r : Enriching) : Enriching := mapStage p.mapper p.catalog r

def atFilter (r : Enriching) : Enriching :=
  SourceTopologyFilterStage.passed p.catalog p.validation (p.atMap r)

def atNormalize (r : Enriching) : Enriching := normalizeStage p.normalizer (p.atFilter r)

def atEnrich (deps : D) (r : Enriching) : Enriching :=
  enrichStage p.enricher deps p.catalog (p.atNormalize r)

def atMatch (deps : D) (store : DedupStore) (r : Enriching) : TransformResult MatchedRow :=
  (matchStage p.matcher p.catalog store (p.atEnrich deps r)).1

/-- The stages that one result of the source goes through. -/
def stepsOf (deps : D) (store : DedupStore) (stage : ResolveStage) (clock : Clock)
    (db : IdentityDb) (r : Enriching) : List (StageStep D) :=
  [.map p.mapper p.catalog r,.sourceTopologyFilter p.catalog p.validation (p.atMap r),
    .normalize p.normalizer (p.atFilter r),.enrich p.enricher deps p.catalog (p.atNormalize r),
    .matching p.matcher p.catalog store (p.atEnrich deps r),
    .resolveContext (p.atMatch deps store r),.resolve stage clock db (p.atMatch deps store r)]

variable {p deps store source}

/-- The store that the row of a position meets at the match stage. -/
def storeAt (p : PlanPipeline D) (deps : Nat → D) (store : DedupStore) (source : List Enriching)
    (k : Nat) : DedupStore :=
  storeAfter p.matcher p.catalog store ((p.enriched deps source).take k)

theorem mapped_get (k : Nat) : (p.mapped source)[k]? = source[k]?.map p.atMap :=
  List.getElem?_map

theorem filtered_get (k : Nat) : (p.filtered source)[k]? = source[k]?.map p.atFilter := by
  rw [filtered, SourceTopologyFilterStage.run_eq, List.getElem?_map, mapped_get, Option.map_map]
  rfl

theorem normalized_get (k : Nat) : (p.normalized source)[k]? = source[k]?.map p.atNormalize := by
  rw [normalized, List.getElem?_map, filtered_get, Option.map_map]
  rfl

theorem enriched_get (k : Nat) :
    (p.enriched deps source)[k]? = source[k]?.map (p.atEnrich (deps k)) := by
  rw [enriched, List.getElem?_mapIdx, normalized_get, Option.map_map]
  rfl

theorem matched_get (k : Nat) : (p.matched deps store source)[k]? =
    source[k]?.map (p.atMatch (deps k) (p.storeAt deps store source k)) := by
  rw [matched, matchStream_get, enriched_get, Option.map_map]
  rfl

/-- The history of a position is the trail of the stages of its row. -/
theorem history_eq {results : List (TransformResult ResolvedRow)} {k : Nat} {r : Enriching}
    (hr : source[k]? = some r) {stage : ResolveStage} {clock : Clock} {db : IdentityDb}
    (hresult : results[k]? = some (stage.resolveRow clock db
      (p.atMatch (deps k) (p.storeAt deps store source k) r)).1) :
    p.history deps store source results k = StageStep.trail
      (p.stepsOf (deps k) (p.storeAt deps store source k) stage clock db r) := by
  have hcontext : (p.contextualized deps store source)[k]? =
      source[k]?.map (p.atMatch (deps k) (p.storeAt deps store source k)) := matched_get k
  rw [history, mapped_get, filtered_get, normalized_get, enriched_get, matched_get, hcontext, hr,
    hresult]
  rfl

/-- Behind the source there are only the rows that waited in the store. -/
theorem history_replayed (results : List (TransformResult ResolvedRow)) {k : Nat}
    (hr : source[k]? = none) :
    p.history deps store source results k = (results[k]?.map bare).toList := by
  have hcontext : (p.contextualized deps store source)[k]? =
      source[k]?.map (p.atMatch (deps k) (p.storeAt deps store source k)) := matched_get k
  rw [history, mapped_get, filtered_get, normalized_get, enriched_get, matched_get, hcontext, hr]
  cases results[k]? <;> rfl

theorem atNormalize_matchKey {r : Enriching} (h : r.matchKey = none) :
    (p.atNormalize r).matchKey = none := by
  have hmapped : (p.atMap r).matchKey = none := by
    rcases mapStage_matchKey p.mapper p.catalog r with ⟨_,hnone⟩ | ⟨_,hkept⟩
    · exact hnone
    · exact hkept.trans h
  have hfiltered := (SourceTopologyFilterStage.passed_logs p.catalog p.validation (p.atMap r)).2
  exact (normalizeStage_logs p.normalizer (p.atFilter r)).2.trans (hfiltered.trans hmapped)

/-- No diagnostics are of the resolve stage before it. -/
theorem atMatch_unresolved {deps : D} {store : DedupStore} {r : Enriching} (h : Unresolved r) :
    Unresolved (p.atMatch deps store r) := by
  have hmapped := (mapStage_logs p.mapper p.catalog r).unresolved (by decide) h
  have hfiltered := (SourceTopologyFilterStage.passed_logs p.catalog p.validation
    (p.atMap r)).1.unresolved (by decide) hmapped
  have hnormalized := (normalizeStage_logs p.normalizer (p.atFilter r)).1.unresolved (by decide)
    hfiltered
  have henriched := (enrichStage_logs p.enricher deps p.catalog (p.atNormalize r)).1.unresolved
    (by decide) hnormalized
  exact (matchStage_logs p.matcher p.catalog store (p.atEnrich deps r)).1.unresolved (by decide)
    henriched

theorem stepsOf_linked (deps : D) (store : DedupStore) (stage : ResolveStage) (clock : Clock)
    (db : IdentityDb) (r : Enriching) :
    (p.stepsOf deps store stage clock db r).IsChain fun s t => s.output = t.input := by
  simp only [stepsOf, List.isChain_cons_cons]
  exact ⟨rfl,rfl,rfl,rfl,rfl,rfl,List.IsChain.singleton _⟩

theorem stepsOf_last {deps : D} {store : DedupStore} {stage : ResolveStage} {clock : Clock}
    {db : IdentityDb} {r : Enriching}
    (h : (StageStep.trail (p.stepsOf deps store stage clock db r)).Pairwise CarriesOn) :
    CarriesOn (p.atMatch deps store r)
      (stage.resolveRow clock db (p.atMatch deps store r)).1 := by
  have hlast := List.pairwise_iff_getElem.mp h 6 7 (show 6 < 8 by decide) (show 7 < 8 by decide)
    (by decide)
  exact carriesOn_bare.mp hlast

/-- Along a row that started without a key only the resolver can break the history. -/
theorem stepsOf_clear {deps : D} {store : DedupStore} {stage : ResolveStage} {clock : Clock}
    {db : IdentityDb} {r : Enriching} (hkey : r.matchKey = none)
    (h : (p.atMatch deps store r).row.isSome → (p.atMatch deps store r).errors = [] ∧
      (p.atMatch deps store r).warnings = []) :
    ∀ s ∈ p.stepsOf deps store stage clock db r, s.Clear := by
  have henrich : (StageStep.enrich p.enricher deps p.catalog (p.atNormalize r)).Clear := by
    intro key hsome
    rw [atNormalize_matchKey hkey] at hsome
    cases hsome
  have hresolve : (StageStep.resolve (D := D) stage clock db (p.atMatch deps store r)).Clear := by
    cases hrow : (p.atMatch deps store r).row with
    | none => exact .inl hrow
    | some row => exact .inr (h (by rw [hrow]; rfl))
  intro s hs
  simp only [stepsOf, List.mem_cons, List.not_mem_nil, or_false] at hs
  rcases hs with rfl | rfl | rfl | rfl | rfl | rfl | rfl
  · exact .inl hkey
  · trivial
  · trivial
  · exact henrich
  · trivial
  · trivial
  · exact hresolve

end PlanPipeline

theorem extract_fresh {catalog : ErrorCatalog} {records : List SourceRecord}
    {failure : Option PyException} {r : Enriching} (h : r ∈ extract catalog records failure) :
    r.matchKey = none ∧ Unresolved r := by
  simp only [extract, List.mem_append, List.mem_map, Option.mem_toList,
    Option.map_eq_some_iff] at h
  rcases h with ⟨_,_,rfl⟩ | ⟨_,_,rfl⟩
  · exact ⟨rfl,by simp [Unresolved, extracted]⟩
  · exact ⟨rfl,by simp [Unresolved, sourceFailure, extracted]⟩

/-- A sequence of stages conserves the history of a row where it is safe at each; and a
planning run conserves the history of every row exactly when no row leaves the match stage
with its row and with diagnostics. -/
theorem diagnostics_conserved_iff {D : Type} (p : PlanPipeline D) (deps : Nat → D)
    (store : DedupStore) (records : List SourceRecord) (failure : Option PyException)
    (es : List Event) (dataset : String) (schedule : Nat → Tick) :
    (∀ steps : List (StageStep D), (steps.IsChain fun s t => s.output = t.input) →
      (∀ s ∈ steps, s.Clear) → (StageStep.trail steps).Pairwise CarriesOn) ∧
    ∃ planned, iterResolved p.resolver p.catalog dataset schedule (World.after es).db
        (p.contextualized deps store (extract p.catalog records failure)) = .ok planned ∧
      ((∀ k, (p.history deps store (extract p.catalog records failure) planned.results
          k).Pairwise CarriesOn) ↔
        ∀ m ∈ p.matched deps store (extract p.catalog records failure),
          m.row.isSome → m.errors = [] ∧ m.warnings = []) := by
  refine ⟨fun _ hlinked hclear => StageStep.trail_carriesOn hlinked hclear,?_⟩
  obtain ⟨replayed,hload,_⟩ := (World.after_sound es).load dataset
  have hplan := iterResolved_of_load p.resolver p.catalog hload schedule
    (p.contextualized deps store (extract p.catalog records failure))
  refine ⟨_,hplan,fun hall m hm hrow => ?_,fun hquiet k => ?_⟩
  · obtain ⟨k,hk⟩ := List.mem_iff_getElem?.mp hm
    obtain ⟨db,hget⟩ := iterResolved_get hplan hk
    have hat := @PlanPipeline.matched_get D p deps store (extract p.catalog records failure) k
    rw [hk] at hat
    obtain ⟨r,hr,rfl⟩ := Option.map_eq_some_iff.mp hat.symm
    have hhistory := hall k
    rw [PlanPipeline.history_eq hr hget] at hhistory
    have hlast := PlanPipeline.stepsOf_last hhistory
    have hfresh := (extract_fresh (List.mem_of_getElem? hr)).2
    obtain ⟨herrors,hwarnings⟩ := PlanPipeline.atMatch_unresolved hfresh
    exact hlast.resolved hrow herrors hwarnings
  · cases hr : (extract p.catalog records failure)[k]? with
    | none =>
      rw [PlanPipeline.history_replayed _ hr]
      exact Option.pairwise_toList
    | some r =>
      have hk := @PlanPipeline.matched_get D p deps store (extract p.catalog records failure) k
      rw [hr, Option.map_some] at hk
      obtain ⟨db,hget⟩ := iterResolved_get hplan hk
      rw [PlanPipeline.history_eq hr hget]
      exact StageStep.trail_carriesOn (PlanPipeline.stepsOf_linked _ _ _ _ _ _)
        (PlanPipeline.stepsOf_clear (extract_fresh (List.mem_of_getElem? hr)).1
          (hquiet _ (List.mem_of_getElem? hk)))

section Samples

/-- A run over one row, which the verdict on its node marks with a warning. -/
def markedRun : PlanPipeline Unit :=
  { lostSecret with
    enricher := { lostSecret.enricher with putMany := passwordEnricher.putMany }
    validation := some ⟨"mail",[("a@x",⟨"a@x",.missingParent,some "b@x"⟩)],.warn⟩ }

end Samples

/-- The warning of the topology filter is gone after the resolve stage. -/
theorem topology_warning_forgotten :
    ¬ ∀ (p : PlanPipeline Unit) (deps : Nat → Unit) (store : DedupStore)
      (records : List SourceRecord) (failure : Option PyException) (es : List Event)
      (dataset : String) (schedule : Nat → Tick) (planned : Planned),
      iterResolved p.resolver p.catalog dataset schedule (World.after es).db
        (p.contextualized deps store (extract p.catalog records failure)) = .ok planned →
      ∀ k, (p.history deps store (extract p.catalog records failure) planned.results
        k).Pairwise CarriesOn := by
  intro h
  have hcounts : (iterResolved markedRun.resolver [] "employees" steady (World.after []).db
      (markedRun.contextualized (fun _ => ()) ⟨[],none⟩ (extract [] [mailRecord] none))).map
        (fun planned => (markedRun.history (fun _ => ()) ⟨[],none⟩ (extract [] [mailRecord] none)
          planned.results 0).map fun r => r.warnings.length) = .ok [0,0,1,1,1,1,1,0] := by decide
  cases hrun : iterResolved markedRun.resolver [] "employees" steady (World.after []).db
      (markedRun.contextualized (fun _ => ()) ⟨[],none⟩ (extract [] [mailRecord] none)) with
  | error exc =>
    rw [hrun] at hcounts
    cases hcounts
  | ok planned =>
    rw [hrun] at hcounts
    have hall := h markedRun (fun _ => ()) ⟨[],none⟩ [mailRecord] none [] "employees" steady
      planned hrun 0
    have hmono : ((markedRun.history (fun _ => ()) ⟨[],none⟩ (extract [] [mailRecord] none)
        planned.results 0).map fun r => r.warnings.length).Pairwise (· ≤ ·) :=
      List.pairwise_map.mpr (hall.imp fun hon => hon.warnings.length_le)
    have hlist : (markedRun.history (fun _ => ()) ⟨[],none⟩ (extract [] [mailRecord] none)
        planned.results 0).map (fun r => r.warnings.length) = [0,0,1,1,1,1,1,0] :=
      Except.ok.inj hcounts
    rw [hlist] at hmono
    exact absurd hmono (by decide)

end NexusEtl
