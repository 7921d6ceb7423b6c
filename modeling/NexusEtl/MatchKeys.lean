import NexusEtl.EnrichModels
import NexusEtl.Library.Segments

/-!
# Match keys

A match key is made of the parts of a row, each with its white space normalised,
joined by a delimiter that the parts may hold themselves. Two rows share a key
when their parts are the same, and also when their parts are two divisions of
the same pieces between delimiters.
-/

set_option autoImplicit false

namespace NexusEtl
open NexusEtl.Library

/-- One step of `read_value_path`; the values of a row are mappings and plain values. -/
def Value.member : Value → String → Value
  | .dict fields, part => Fields.read fields part
  | _, _ => .null

def readValuePath (row : Fields) (path : String) : Value :=
  (Text.splitOn '.' path).foldl Value.member (.dict row)

namespace MatchKey

def normalizePart (value : Value) : String :=
  if value.isNull then "" else Text.join " " (Text.words value.pyStr)

/-- `none` is the `MatchKeyError` of a strict key with a part missing. -/
def buildDelimitedMatchKey (parts : List Value) (delimiter : String) (strict : Bool) :
    Option String :=
  let normalized := parts.map normalizePart
  if strict && normalized.any (· == "") then none else some (Text.join delimiter normalized)

end MatchKey

structure MatchKeySpec where
  fields : List String
  strict : Bool := true
  deriving DecidableEq, Repr

namespace MatchKeySpec
open MatchKey

variable (spec : MatchKeySpec)

/-- The parts of the key of a row. -/
def parts (row : Fields) : List String :=
  spec.fields.map fun field => normalizePart (readValuePath row field)

/-- `_build_match_key`, for a row that is there. -/
def buildMatchKey (row : Fields) : Option String :=
  buildDelimitedMatchKey (spec.fields.map (readValuePath row)) "|" spec.strict

/-- The `compute` of the operation `build_match_key`. -/
def compute (result : Enriching) : Option Fields :=
  result.row.bind fun row => (spec.buildMatchKey row).map fun key => [("match_key",.str key)]

/-- The parts of two rows are the same pieces between delimiters, divided otherwise among the
fields. -/
def Redivided (row row' : Fields) : Prop :=
  Segments.Redivided '|' ((spec.parts row).map String.toList) ((spec.parts row').map String.toList)

theorem buildMatchKey_some {row : Fields} {key : String} (h : spec.buildMatchKey row = some key) :
    key.toList = ['|'].intercalate ((spec.parts row).map String.toList) := by
  unfold buildMatchKey buildDelimitedMatchKey at h
  dsimp only at h
  split at h
  · cases h
  · cases h
    rw [Text.join, String.toList_intercalate]
    simp [parts, Function.comp_def]

/-- Two rows with keys share their key exactly when their parts are equal or divided otherwise. -/
theorem key_eq_iff {row row' : Fields} {key key' : String} (h : spec.buildMatchKey row = some key)
    (h' : spec.buildMatchKey row' = some key') :
    key = key' ↔ spec.parts row = spec.parts row' ∨ spec.Redivided row row' := by
  have hlength : ((spec.parts row).map String.toList).length =
      ((spec.parts row').map String.toList).length := by
    simp [parts]
  have hinjective : Function.Injective (List.map String.toList) :=
    List.map_injective_iff.mpr fun _ _ => String.toList_inj.mp
  rw [← String.toList_inj, spec.buildMatchKey_some h, spec.buildMatchKey_some h',
    Segments.intercalate_eq_iff hlength, hinjective.eq_iff]
  rfl

theorem parts_ne_of_redivided {row row' : Fields} (h : spec.Redivided row row') :
    spec.parts row ≠ spec.parts row' := fun heq => h.ne (by rw [heq])

/-- No part of the row is missing. -/
def Complete (row : Fields) : Prop := ∀ part ∈ spec.parts row, part ≠ ""

/-- A strict key is built when no part is missing. -/
theorem buildMatchKey_isSome (fields : List String) (row : Fields) :
    ((⟨fields,true⟩ : MatchKeySpec).buildMatchKey row).isSome = true ↔
      (⟨fields,true⟩ : MatchKeySpec).Complete row := by
  simp [buildMatchKey, buildDelimitedMatchKey, Complete, parts, apply_ite Option.isSome]

/-- Parts without the delimiter are told by the key. -/
theorem parts_eq_of_no_delimiter {row row' : Fields} {key : String} (hfields : spec.fields ≠ [])
    (hfree : ∀ part ∈ spec.parts row ++ spec.parts row', '|' ∉ part.toList)
    (h : spec.buildMatchKey row = some key) (h' : spec.buildMatchKey row' = some key) :
    spec.parts row = spec.parts row' := by
  have hsplit : ∀ r : Fields, (∀ part ∈ spec.parts r, '|' ∉ part.toList) →
      spec.buildMatchKey r = some key →
        key.toList.splitOn '|' = (spec.parts r).map String.toList := by
    intro r hr hkey
    rw [spec.buildMatchKey_some hkey]
    apply List.splitOn_intercalate
    · intro l hl
      obtain ⟨part,hpart,rfl⟩ := List.mem_map.mp hl
      exact hr part hpart
    · simpa [parts] using hfields
  have heq := (hsplit row (fun p hp => hfree p (List.mem_append_left _ hp)) h).symm.trans
    (hsplit row' (fun p hp => hfree p (List.mem_append_right _ hp)) h')
  exact List.map_injective_iff.mpr (fun _ _ => String.toList_inj.mp) heq

/-- A strict key tells two rows apart exactly when their parts are not the same pieces between
delimiters divided otherwise among the fields. -/
theorem match_key_injective_iff (fields : List String) (row row' : Fields) :
    let spec : MatchKeySpec := ⟨fields,true⟩
    (∀ key, spec.buildMatchKey row = some key → spec.buildMatchKey row' = some key →
        spec.parts row = spec.parts row') ↔
      (spec.Complete row → spec.Complete row' → ¬spec.Redivided row row') := by
  intro spec
  constructor
  · intro hinjective hcomplete hcomplete' hredivided
    obtain ⟨key,hkey⟩ := Option.isSome_iff_exists.mp
      ((buildMatchKey_isSome fields row).mpr hcomplete)
    obtain ⟨key',hkey'⟩ := Option.isSome_iff_exists.mp
      ((buildMatchKey_isSome fields row').mpr hcomplete')
    obtain rfl := (spec.key_eq_iff hkey hkey').mpr (.inr hredivided)
    exact spec.parts_ne_of_redivided hredivided (hinjective key hkey hkey')
  · intro hnot key hkey hkey'
    have hcomplete := (buildMatchKey_isSome fields row).mp (Option.isSome_iff_exists.mpr ⟨_,hkey⟩)
    have hcomplete' :=
      (buildMatchKey_isSome fields row').mp (Option.isSome_iff_exists.mpr ⟨_,hkey'⟩)
    exact ((spec.key_eq_iff hkey hkey').mp rfl).resolve_right (hnot hcomplete hcomplete')

/-- Two people whose names hold the delimiter share a key. -/
theorem people_share_match_key :
    let spec : MatchKeySpec := ⟨["last_name","first_name"],true⟩
    let doe : Fields := [("last_name",.str "Doe"),("first_name",.str "John|Smith")]
    let smith : Fields := [("last_name",.str "Doe|John"),("first_name",.str "Smith")]
    spec.buildMatchKey doe = some "Doe|John|Smith" ∧
      spec.buildMatchKey smith = some "Doe|John|Smith" ∧ spec.parts doe ≠ spec.parts smith := by
  decide

end MatchKeySpec

end NexusEtl
