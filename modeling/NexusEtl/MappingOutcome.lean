import NexusEtl.Library.Patches
import NexusEtl.EngineRuns
import NexusEtl.MetaPaths

/-!
# What the mapper makes of a record

The outcome of a mapping is said by the rules alone: each field has the value of the last
rule that assigned it, each diagnostic of a rule is in the result. The mapper follows this
on the records where it finds no required field blank and no metadata path blocked.
-/

set_option autoImplicit false

namespace NexusEtl
open NexusEtl.Library

namespace MapperCore

/-! ## Rules -/

theorem get?_assignValues (row : Fields) (rule : MappingRule) (value : Value) (field : String) :
    Dict.get? (assignValues row rule value) field =
      (Dict.get? (assignValues [] rule value) field).or (Dict.get? row field) := by
  unfold assignValues
  split
  · rw [Patches.get?_foldl_set_value, Patches.get?_foldl_set_value, Dict.get?_nil, Option.or_none]
  · cases rule.target with
    | none => rfl
    | some target =>
      by_cases h : target = field
      · simp [h]
      · simp [Dict.get?_set, h]

theorem isSome_assignValues {rule : MappingRule} {field : String} (h : field ∈ ruleTargets rule)
    (value : Value) : (Dict.get? (assignValues [] rule value) field).isSome = true := by
  unfold ruleTargets at h
  unfold assignValues
  split at h
  · rename_i htargets
    rw [if_pos htargets, Patches.get?_foldl_set_value, Dict.get?_nil, Option.or_none,
      Option.isSome_map, List.find?_isSome]
    rw [← List.zipIdx_map_fst 0 rule.targets] at h
    obtain ⟨pair,hpair,hfield⟩ := List.mem_map.mp h
    exact ⟨pair,List.mem_reverse.mpr hpair,by simpa using hfield⟩
  · rename_i htargets
    rw [if_neg htargets, Option.mem_toList.mp h]
    simp

variable (core : MapperCore) (record : SourceRecord)

/-- What a rule without an error issue assigns to a field. -/
def assignedBy (rule : MappingRule) (field : String) : Option Value :=
  if anyError (core.resolveRuleValue record rule).2 then none
  else Dict.get? (assignValues [] rule (core.resolveRuleValue record rule).1) field

/-- The value of the last rule that assigned one. -/
def lastAssigned (rules : List MappingRule) (field : String) : Option Value :=
  rules.reverse.findSome? fun rule => core.assignedBy record rule field

def rowOf (rules : List MappingRule) (row : Fields) : Fields :=
  rules.foldl (fun row rule =>
    if anyError (core.resolveRuleValue record rule).2 then row
    else assignValues row rule (core.resolveRuleValue record rule).1) row

def diagnosedOf (rules : List MappingRule) (acc : Diagnosed) : Diagnosed :=
  rules.foldl (fun acc rule =>
    core.append record rule.onError acc (core.resolveRuleValue record rule).2) acc

/-- A required rule, when it has no error issue, gives every target a value that is not blank. -/
def RequiredPresent (rule : MappingRule) : Prop :=
  anyError (core.resolveRuleValue record rule).2 = false → rule.required = true →
    ∀ field ∈ ruleTargets rule,
      isPresent ((core.assignedBy record rule field).getD .null) = true

variable {core record}

theorem rowOf_cons (rule : MappingRule) (rules : List MappingRule) (row : Fields) :
    core.rowOf record (rule::rules) row = core.rowOf record rules
      (if anyError (core.resolveRuleValue record rule).2 then row
        else assignValues row rule (core.resolveRuleValue record rule).1) := rfl

theorem diagnosedOf_cons (rule : MappingRule) (rules : List MappingRule) (acc : Diagnosed) :
    core.diagnosedOf record (rule::rules) acc = core.diagnosedOf record rules
      (core.append record rule.onError acc (core.resolveRuleValue record rule).2) := rfl

theorem get?_rowOf (rules : List MappingRule) (row : Fields) (field : String) :
    Dict.get? (core.rowOf record rules row) field =
      (core.lastAssigned record rules field).or (Dict.get? row field) := by
  induction rules generalizing row with
  | nil => rfl
  | cons rule rules ih =>
    rw [rowOf_cons, ih, lastAssigned, lastAssigned, List.reverse_cons,
      List.findSome?_append, Option.or_assoc]
    congr 1
    simp only [List.findSome?_cons, List.findSome?_nil, assignedBy]
    split
    · rfl
    · rw [get?_assignValues]
      cases Dict.get? (assignValues [] rule (core.resolveRuleValue record rule).1) field <;> rfl

theorem read_rowOf (rules : List MappingRule) (field : String) :
    Fields.read (core.rowOf record rules []) field =
      (core.lastAssigned record rules field).getD .null := by
  rw [Fields.read, get?_rowOf, Dict.get?_nil, Option.or_none]

theorem requirePresent_eq (row : Fields) (names : List String) :
    requirePresent row names = .ok () ∧ (∀ name ∈ names, isPresent (Fields.read row name) = true) ∨
      requirePresent row names = .error appendIssueMissing ∧
        ¬∀ name ∈ names, isPresent (Fields.read row name) = true := by
  by_cases h : ∀ name ∈ names, isPresent (Fields.read row name) = true
  · refine Or.inl ⟨?_,h⟩
    rw [requirePresent, if_pos]
    rwa [List.all_eq_true]
  · refine Or.inr ⟨?_,h⟩
    rw [requirePresent, if_neg]
    rwa [List.all_eq_true]

/-- The targets of a rule that was just applied hold what it assigned. -/
theorem read_assignValues {rule : MappingRule} (row : Fields)
    (hok : anyError (core.resolveRuleValue record rule).2 = false) {field : String}
    (h : field ∈ ruleTargets rule) :
    Fields.read (assignValues row rule (core.resolveRuleValue record rule).1) field =
      (core.assignedBy record rule field).getD .null := by
  obtain ⟨v,hv⟩ := Option.isSome_iff_exists.mp
    (isSome_assignValues h (core.resolveRuleValue record rule).1)
  rw [Fields.read, get?_assignValues, assignedBy, hok, hv]
  rfl

/-- The loop over the rules ends with the row and the diagnostics of all rules, unless some
rule leaves a required target blank. -/
theorem applyRules_eq (rules : List MappingRule) (row : Fields) (acc : Diagnosed) :
    (∀ rule ∈ rules, core.RequiredPresent record rule) ∧
      core.applyRules record rules (row,acc) =
        .ok (core.rowOf record rules row,core.diagnosedOf record rules acc) ∨
    (¬∀ rule ∈ rules, core.RequiredPresent record rule) ∧
      core.applyRules record rules (row,acc) = .error appendIssueMissing := by
  induction rules generalizing row acc with
  | nil => exact Or.inl ⟨fun _ h => absurd h List.not_mem_nil,rfl⟩
  | cons rule rules ih =>
    simp only [applyRules, rowOf_cons, diagnosedOf_cons, List.forall_mem_cons]
    cases herror : anyError (core.resolveRuleValue record rule).2 with
    | true =>
      have hpresent : core.RequiredPresent record rule := fun hok => by rw [herror] at hok; cases hok
      simp only [hpresent, true_and, if_true]
      exact ih _ _
    | false =>
      have hiff : core.RequiredPresent record rule ↔
          ∀ name ∈ (if rule.required then ruleTargets rule else []), isPresent (Fields.read
            (assignValues row rule (core.resolveRuleValue record rule).1) name) = true := by
        rw [RequiredPresent, herror]
        cases rule.required with
        | false => simp
        | true =>
          simp only [true_implies, if_true]
          exact forall₂_congr fun name hname => by rw [read_assignValues row herror hname]
      simp only [Bool.false_eq_true, if_false]
      rcases requirePresent_eq (assignValues row rule (core.resolveRuleValue record rule).1)
        (if rule.required then ruleTargets rule else []) with ⟨hok,hall⟩ | ⟨hfail,hall⟩
      · rw [hok]
        simp only [hiff.mpr hall, true_and]
        exact ih _ _
      · rw [hfail]
        refine Or.inr ⟨fun h => hall (hiff.mp h.1),rfl⟩

/-! ## Diagnostics -/

/-- The source value of a rule before its operations. -/
def sourceValue (core : MapperCore) (record : SourceRecord) (rule : MappingRule) :
    Value × List DslIssue :=
  if rule.sources ≠ [] then
    (.list ((rule.sources.map (readColumn core.compiled.sourceColumns record)).map Prod.fst),
      (rule.sources.map (readColumn core.compiled.sourceColumns record)).flatMap Prod.snd)
  else match rule.source with
    | some name => readColumn core.compiled.sourceColumns record name
    | none => (.null,[])

theorem resolveRuleValue_eq (rule : MappingRule) :
    core.resolveRuleValue record rule =
      if rule.ops = [] then core.sourceValue record rule
      else ((applyOps core.registry (core.sourceValue record rule).1 rule.ops).value,
        (core.sourceValue record rule).2 ++
          (applyOps core.registry (core.sourceValue record rule).1 rule.ops).issues) := rfl

theorem applyOps_severity {registry : OperationRegistry} {value : Value}
    {calls : List OperationCall} {issue : DslIssue}
    (h : issue ∈ (applyOps registry value calls).issues) : issue.severity = .error := by
  rcases @engineApply_cases registry 0 value calls with
    ⟨v,-,heq,-⟩ | ⟨v,found,-,hsev,heq,-⟩
  · rw [applyOps, heq] at h
    cases h
  · rw [applyOps, heq] at h
    rw [List.mem_singleton.mp h]
    exact hsev

/-- Missing columns and failed operations are errors; a rule has no other issues. -/
theorem resolveRuleValue_severity {rule : MappingRule} {issue : DslIssue}
    (h : issue ∈ (core.resolveRuleValue record rule).2) : issue.severity = .error := by
  have hread : ∀ name, ∀ issue ∈ (readColumn core.compiled.sourceColumns record name).2,
      issue.severity = .error := by
    intro name issue hissue
    unfold readColumn at hissue
    split at hissue
    · cases hissue
    · rw [List.mem_singleton.mp hissue]
      rfl
  have hsource : ∀ issue ∈ (core.sourceValue record rule).2, issue.severity = .error := by
    intro issue hissue
    unfold sourceValue at hissue
    split at hissue
    · obtain ⟨read,hmem,hissue⟩ := List.mem_flatMap.mp hissue
      obtain ⟨name,-,rfl⟩ := List.mem_map.mp hmem
      exact hread name issue hissue
    · split at hissue
      · exact hread _ issue hissue
      · cases hissue
  rw [resolveRuleValue_eq] at h
  split at h
  · exact hsource issue h
  · rcases List.mem_append.mp h with h | h
    · exact hsource issue h
    · exact applyOps_severity h

theorem diagnosedOf_errors (rules : List MappingRule) (acc : Diagnosed) :
    (core.diagnosedOf record rules acc).errors = [] ↔
      acc.errors = [] ∧ ∀ rule ∈ rules, rule.onError = .error →
        (core.resolveRuleValue record rule).2 = [] := by
  induction rules generalizing acc with
  | nil => simp [diagnosedOf]
  | cons rule rules ih =>
    rw [diagnosedOf_cons, ih, append, appendDslIssues_errors_eq_nil_iff _ _ _ _
      (fun _ hissue => resolveRuleValue_severity hissue), List.forall_mem_cons, and_assoc]

/-- Every diagnostic of every rule is among those collected. -/
theorem diagnosedOf_within (rules : List MappingRule) (acc : Diagnosed) :
    acc.Within (core.diagnosedOf record rules acc) ∧
      ∀ rule ∈ rules, (core.append record rule.onError ⟨[],[]⟩
        (core.resolveRuleValue record rule).2).Within (core.diagnosedOf record rules acc) := by
  induction rules generalizing acc with
  | nil => exact ⟨Diagnosed.Within.refl acc,fun _ h => absurd h List.not_mem_nil⟩
  | cons rule rules ih =>
    have hstep := appendDslIssues_within .map core.catalog (some (rowRefFromRecord record))
      rule.onError acc (core.resolveRuleValue record rule).2
    have hrest := ih (core.append record rule.onError acc (core.resolveRuleValue record rule).2)
    rw [diagnosedOf_cons]
    refine ⟨hstep.1.trans hrest.1,List.forall_mem_cons.mpr ⟨hstep.2.trans hrest.1,hrest.2⟩⟩

theorem validateSink_spec (row : Fields) (acc : Diagnosed) :
    (core.validateSink record row acc).errors = acc.errors ∧
      acc.Within (core.validateSink record row acc) := by
  unfold validateSink
  cases core.sinkSpec with
  | none => exact ⟨rfl,Diagnosed.Within.refl acc⟩
  | some spec =>
    refine ⟨?_,(appendDslIssues_within _ _ _ _ _ _).1⟩
    have hwarn : ∀ issues acc, (core.append record .warn acc issues).errors = acc.errors := by
      intro issues
      induction issues with
      | nil => exact fun _ => rfl
      | cons issue issues ih =>
        intro acc
        rw [append, appendDslIssues, List.foldl_cons]
        exact (ih _).trans (by simp [appendDslIssue])
    exact hwarn _ acc

/-! ## Metadata rules -/

/-- What the metadata rules write: a rule with an error issue or without a value writes nothing. -/
def metaWrites (core : MapperCore) (record : SourceRecord) (row : Fields)
    (rules : List MetaRule) : List MetaWrite :=
  rules.filterMap fun rule =>
    if anyError (core.resolveMetaValue record row rule).2 ||
      (core.resolveMetaValue record row rule).1.isNull then none
    else some (Text.splitOn '.' rule.target,(core.resolveMetaValue record row rule).1)

def metaDiagnosed (core : MapperCore) (record : SourceRecord) (row : Fields)
    (rules : List MetaRule) (acc : Diagnosed) : Diagnosed :=
  rules.foldl (fun acc rule =>
    core.append record rule.onError acc (core.resolveMetaValue record row rule).2) acc

theorem metaWrites_path {row : Fields} {rules : List MetaRule} :
    ∀ write ∈ core.metaWrites record row rules, write.1 ≠ [] := by
  intro write h
  obtain ⟨rule,-,hwrite⟩ := List.mem_filterMap.mp h
  split at hwrite
  · cases hwrite
  · rw [← Option.some.inj hwrite]
    simp [Text.splitOn, List.splitOn_ne_nil]

theorem applyMetaRules_eq (row : Fields) (rules : List MetaRule) (fields : Fields)
    (acc : Diagnosed) :
    core.applyMetaRules record row rules (fields,acc) =
      match setAll fields (core.metaWrites record row rules) with
      | .ok written => .ok (written,core.metaDiagnosed record row rules acc)
      | .error exc => .error exc := by
  induction rules generalizing fields acc with
  | nil => rfl
  | cons rule rules ih =>
    rw [applyMetaRules, metaWrites, List.filterMap_cons]
    dsimp only
    split
    · exact ih fields _
    · dsimp only
      rw [setAll]
      cases setMeta fields (Text.splitOn '.' rule.target)
          (core.resolveMetaValue record row rule).1 with
      | error exc => rfl
      | ok written => exact ih written _

theorem metaDiagnosed_within (row : Fields) (rules : List MetaRule) (acc : Diagnosed) :
    acc.Within (core.metaDiagnosed record row rules acc) := by
  induction rules generalizing acc with
  | nil => exact Diagnosed.Within.refl acc
  | cons rule rules ih => exact (appendDslIssues_within _ _ _ _ _ _).1.trans (ih _)

/-! ## The outcome -/

/-- No required target and no required field of the schema is blank; and when no rule reports
an error, no metadata path runs through another's value. -/
structure MapsCleanly (core : MapperCore) (record : SourceRecord) : Prop where
  required_present : ∀ rule ∈ core.compiled.rules, core.RequiredPresent record rule
  schema_present : ∀ field ∈ core.compiled.schemaRequired,
    isPresent ((core.lastAssigned record core.compiled.rules field).getD .null) = true
  paths_clear : (∀ rule ∈ core.compiled.rules, rule.onError = .error →
      (core.resolveRuleValue record rule).2 = []) →
    PathsClear (core.metaWrites record (core.rowOf record core.compiled.rules [])
      core.compiled.metaRules)

/-- A required field that a schema or an `on_error=error` rule finds blank. -/
def BlankRequired (core : MapperCore) (record : SourceRecord) (field : String) : Prop :=
  (field ∈ core.compiled.schemaRequired ∧
      isPresent ((core.lastAssigned record core.compiled.rules field).getD .null) = false) ∨
    ∃ rule ∈ core.compiled.rules, rule.required = true ∧ rule.onError = .error ∧
      field ∈ ruleTargets rule ∧
        ∃ v, core.assignedBy record rule field = some v ∧ isPresent v = false

structure Outcome (core : MapperCore) (record : SourceRecord) (out : TransformResult Fields) :
    Prop where
  no_row : out.row = none ↔ out.errors ≠ []
  fields : ∀ row, out.row = some row → ∀ field,
    Dict.get? row field = core.lastAssigned record core.compiled.rules field
  no_blank : ∀ row, out.row = some row → ∀ field, ¬core.BlankRequired record field
  blank_reported : ∀ field, core.BlankRequired record field →
    ∃ e ∈ out.errors, e.code = "REQUIRED_FIELD_MISSING" ∧ e.field = some field
  rules_reported : ∀ rule ∈ core.compiled.rules,
    (core.append record rule.onError ⟨[],[]⟩ (core.resolveRuleValue record rule).2).Within
      ⟨out.errors,out.warnings⟩

/-- The diagnostics before the metadata rules. -/
def checked (core : MapperCore) (record : SourceRecord) : Diagnosed :=
  core.validateSink record (core.rowOf record core.compiled.rules [])
    (core.diagnosedOf record core.compiled.rules ⟨[],[]⟩)

/-- The metadata rules that run. -/
def runningMeta (core : MapperCore) (record : SourceRecord) : List MetaRule :=
  if (core.checked record).errors = [] then core.compiled.metaRules else []

/-- The diagnostics of a mapping that comes to its end. -/
def collected (core : MapperCore) (record : SourceRecord) : Diagnosed :=
  core.metaDiagnosed record (core.rowOf record core.compiled.rules []) (core.runningMeta record)
    (core.checked record)

theorem checked_errors : (core.checked record).errors = [] ↔
    ∀ rule ∈ core.compiled.rules, rule.onError = .error →
      (core.resolveRuleValue record rule).2 = [] := by
  rw [checked, (validateSink_spec _ _).1, diagnosedOf_errors]
  exact and_iff_right rfl

theorem pathsClear_runningMeta :
    PathsClear (core.metaWrites record (core.rowOf record core.compiled.rules [])
      (core.runningMeta record)) ↔
      ((∀ rule ∈ core.compiled.rules, rule.onError = .error →
        (core.resolveRuleValue record rule).2 = []) →
          PathsClear (core.metaWrites record (core.rowOf record core.compiled.rules [])
            core.compiled.metaRules)) := by
  rw [← checked_errors, runningMeta]
  by_cases h : (core.checked record).errors = []
  · simp only [h, if_true, true_implies]
  · simp only [h, if_false, false_implies, iff_true]
    rintro earlier write later hsplit
    cases earlier <;> cases hsplit

/-- The metadata rules as `map_record` calls them. -/
theorem applyMetaRules_checked :
    core.applyMetaRules record (core.rowOf record core.compiled.rules [])
      (if (core.validateSink record (core.rowOf record core.compiled.rules [])
        (core.diagnosedOf record core.compiled.rules ⟨[],[]⟩)).errors = []
        then core.compiled.metaRules else [])
      ([],core.validateSink record (core.rowOf record core.compiled.rules [])
        (core.diagnosedOf record core.compiled.rules ⟨[],[]⟩)) =
      match setAll [] (core.metaWrites record (core.rowOf record core.compiled.rules [])
        (core.runningMeta record)) with
      | .ok written => .ok (written,core.collected record)
      | .error exc => .error exc :=
  applyMetaRules_eq _ _ _ _

/-- The mapper comes to its end, with the row and the diagnostics of all rules, exactly on
the records that map cleanly. -/
theorem mapRecord_cases (core : MapperCore) (record : SourceRecord) :
    (core.MapsCleanly record ∧ ∃ out, core.mapRecord record = .ok out ∧
      out.errors = (core.collected record).errors ∧
      out.warnings = (core.collected record).warnings ∧
      out.row = if (core.collected record).errors = []
        then some (core.rowOf record core.compiled.rules []) else none) ∨
    (¬core.MapsCleanly record ∧ ∃ exc, core.mapRecord record = .error exc) := by
  rcases @applyRules_eq core record core.compiled.rules [] ⟨[],[]⟩ with
    ⟨hrequired,hrules⟩ | ⟨hrequired,hrules⟩
  · rcases requirePresent_eq (core.rowOf record core.compiled.rules [])
      core.compiled.schemaRequired with ⟨hschema,hall⟩ | ⟨hschema,hall⟩
    · simp only [read_rowOf] at hall
      have hclean : core.MapsCleanly record ↔ PathsClear (core.metaWrites record
          (core.rowOf record core.compiled.rules []) (core.runningMeta record)) := by
        rw [pathsClear_runningMeta]
        exact ⟨fun h => h.paths_clear,fun h => ⟨hrequired,hall,h⟩⟩
      rw [hclean, ← setAll_ok_iff metaWrites_path]
      have hmeta := @applyMetaRules_checked core record
      cases hset : setAll [] (core.metaWrites record (core.rowOf record core.compiled.rules [])
          (core.runningMeta record)) with
      | ok written =>
        rw [hset] at hmeta
        have hmap : core.mapRecord record = .ok
            { record := record
              row := if (core.collected record).errors = []
                then some (core.rowOf record core.compiled.rules []) else none
              rowRef := none
              matchKey := none
              metadata := written
              secretCandidates := []
              errors := (core.collected record).errors
              warnings := (core.collected record).warnings } := by
          simp only [mapRecord, bind, Except.bind, pure, Except.pure, hrules, hschema, hmeta]
        exact Or.inl ⟨⟨written,rfl⟩,_,hmap,rfl,rfl,rfl⟩
      | error exc =>
        rw [hset] at hmeta
        refine Or.inr ⟨?_,exc,?_⟩
        · rintro ⟨_,he⟩
          cases he
        simp only [mapRecord, bind, Except.bind, hrules, hschema, hmeta]
    · simp only [read_rowOf] at hall
      refine Or.inr ⟨fun h => hall h.schema_present,appendIssueMissing,?_⟩
      simp only [mapRecord, bind, Except.bind, hrules, hschema]
  · refine Or.inr ⟨fun h => hrequired h.required_present,appendIssueMissing,?_⟩
    simp only [mapRecord, bind, Except.bind, hrules]

/-- On a record that maps cleanly no required field is blank. -/
theorem MapsCleanly.not_blank (h : core.MapsCleanly record) (field : String) :
    ¬core.BlankRequired record field := by
  rintro (⟨hfield,hblank⟩ | ⟨rule,hrule,hrequired,-,hfield,v,hv,hblank⟩)
  · rw [h.schema_present field hfield] at hblank
    cases hblank
  · have hok : anyError (core.resolveRuleValue record rule).2 = false := by
      by_contra herror
      rw [assignedBy, if_pos (Bool.not_eq_false _ ▸ herror)] at hv
      cases hv
    have hpresent := h.required_present rule hrule hok hrequired field hfield
    rw [hv, Option.getD_some, hblank] at hpresent
    cases hpresent

def emailMapper : MapperCore where
  compiled :=
    { rules := [⟨some "email",[],some "email",[],[],true,.error⟩]
      metaRules := []
      schemaRequired := []
      sourceColumns := ["email"] }
  registry := []
  sinkSpec := none
  catalog := []

end MapperCore
end NexusEtl
