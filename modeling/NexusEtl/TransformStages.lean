import NexusEtl.Mapper
import NexusEtl.Normalizer
import NexusEtl.Enrich

/-!
# Extract, map, normalize and enrich stages

Each stage turns one result into one result. It decides whether its core runs,
puts the core behind the diagnostic boundary and merges the diagnostics of the
core with those the result already carries.
-/

set_option autoImplicit false

namespace NexusEtl
open NexusEtl.Library

/-- The result with which the extractor wraps a record of the source. -/
def extracted (record : SourceRecord) : Enriching :=
  { record := record, row := none, rowRef := none, matchKey := none, metadata := []
    secretCandidates := [], errors := [], warnings := [] }

def sourceFailure (catalog : ErrorCatalog) (exc : PyException) : Enriching :=
  let ref : RowRef := ⟨none,"source",none,none⟩
  { extracted ⟨0,"source",[]⟩ with
    rowRef := some ref
    errors := [diagError catalog .extract "SOURCE_ERROR" none (some exc.text) (some ref) none] }

/-- `Extractor.run`: the records read, then one failed result when the source raised. -/
def extract (catalog : ErrorCatalog) (records : List SourceRecord)
    (failure : Option PyException) : List Enriching :=
  records.map extracted ++ (failure.map (sourceFailure catalog)).toList

def mapStage (mapper : MapperCore) (catalog : ErrorCatalog) (collected : Enriching) :
    Enriching :=
  if collected.errors ≠ [] then collected.withoutRow
  else match diagnosticBoundary .map catalog collected.rowRef
      (mapper.mapRecord collected.record) with
    | (none,boundary) => collected.dropRow boundary
    | (some mapped,boundary) =>
      { mapped with
        metadata := if collected.metadata = [] then mapped.metadata
          else Dict.update collected.metadata mapped.metadata
        errors := collected.errors ++ boundary ++ mapped.errors
        warnings := collected.warnings ++ mapped.warnings }

def normalizeStage (normalizer : NormalizerCore) (collected : Enriching) : Enriching :=
  if collected.errors ≠ [] then collected else normalizer.normalize collected

def enrichStage {D : Type} (enricher : EnricherCore D) (deps : D) (catalog : ErrorCatalog)
    (collected : Enriching) : Enriching :=
  match diagnosticBoundary .enrich catalog collected.rowRef (enricher.enrich deps collected) with
  | (none,boundary) => collected.dropRow boundary
  | (some enriched,boundary) => enriched.addErrors boundary

theorem mapStage_secretCandidates (mapper : MapperCore) (catalog : ErrorCatalog)
    (collected : Enriching) (h : collected.secretCandidates = []) :
    (mapStage mapper catalog collected).secretCandidates = [] := by
  unfold mapStage
  split
  · exact h
  · cases hm : mapper.mapRecord collected.record with
    | error exc => exact h
    | ok mapped => exact (MapperCore.mapRecord_spec hm).2.2.2.1

theorem normalizeStage_secretCandidates (normalizer : NormalizerCore) (collected : Enriching) :
    (normalizeStage normalizer collected).secretCandidates = collected.secretCandidates := by
  unfold normalizeStage
  split
  · rfl
  · obtain ⟨_,_,_,_,_,h,_⟩ := normalizer.normalize_spec collected
    exact h

end NexusEtl
