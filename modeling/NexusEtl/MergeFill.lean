import NexusEtl.LinkSteps
import NexusEtl.History

/-!
# Filling empty fields from the existing record

The merge policy takes a value of the existing record where the row has none.
The resolver then writes every key of the row's desired state over the result,
and the builder of the desired state sets a key for every declared field.
-/

set_option autoImplicit false

namespace NexusEtl
open NexusEtl.Library

inductive NormalizeMode
  | none | text | bool
  deriving DecidableEq, Repr

structure ResolveMergeFieldSpec where
  field : String
  existing : Option String := .none
  normalize : NormalizeMode := .none
  deriving DecidableEq, Repr

inductive ResolveMergeMode
  | none | fillEmptyFromExisting
  deriving DecidableEq, Repr

structure ResolveMergeSpec where
  mode : ResolveMergeMode := .none
  fields : List ResolveMergeFieldSpec := []
  fields_ne : mode = .fillEmptyFromExisting → fields ≠ []

namespace ResolveDsl

/-- `normalize_text` with empty texts kept. -/
def normalizeText : Value → Value
  | .null => .null
  | v => .str (Text.join " " (Text.words v.pyStr))

/-- `_to_bool` -/
def toBool : Value → Value
  | .bool b => .bool b
  | .int n => .bool (n != 0)
  | .str s =>
    let normalized := Text.lower (Text.strip s)
    if ["1", "true", "yes", "y"].contains normalized then .bool true
    else if ["0", "false", "no", "n"].contains normalized then .bool false
    else .null
  | _ => .null

/-- `_normalize_for_mode` -/
def normalizeForMode (value : Value) : NormalizeMode → Value
  | .none => value
  | .text => normalizeText value
  | .bool => toBool value

/-- `_compile_desired_state`: every declared field gets a key. -/
def buildDesiredState (fields dropFields : List String) (row : Fields) : Fields :=
  (fields.foldl (fun result name => Dict.set result name (Fields.read row name)) []).filter
    fun kv => kv.1 ∉ dropFields

/-- The value of the existing record that a rule offers. -/
def fallback (existing : Fields) (rule : ResolveMergeFieldSpec) : Value :=
  normalizeForMode (Fields.read existing ((rule.existing.filter (· ≠ "")).getD rule.field))
    rule.normalize

def fillRule (existing merged : Fields) (rule : ResolveMergeFieldSpec) : Fields :=
  if (Fields.read merged rule.field).isBlank && !(fallback existing rule).isBlank then
    Dict.set merged rule.field (fallback existing rule)
  else merged

/-- `_compile_merge` -/
def compileMerge (spec : Option ResolveMergeSpec) :
    Option (Option Fields → Fields → Except PyException (Option Fields)) :=
  match spec with
  | .none => .none
  | some spec => match spec.mode with
    | .none => .none
    | .fillEmptyFromExisting => some fun existing desired =>
      let record := existing.getD []
      if record = [] then .ok (some desired)
      else .ok (some (spec.fields.foldl (fillRule record) desired))

/-- The first value that the rules for a field offer. -/
def firstFallback (existing : Fields) (field : String) (rules : List ResolveMergeFieldSpec) :
    Option Value :=
  ((rules.filter (·.field == field)).map (fallback existing)).find? (!·.isBlank)

theorem read_fillRule_ne {existing merged : Fields} {rule : ResolveMergeFieldSpec} {field : String}
    (h : rule.field ≠ field) :
    Fields.read (fillRule existing merged rule) field = Fields.read merged field := by
  unfold fillRule
  split
  · exact Fields.read_set_ne _ _ h
  · rfl

/-- A value that is not empty stays through all the rules. -/
theorem read_fill_of_set {existing : Fields} {field : String} (rules : List ResolveMergeFieldSpec)
    {merged : Fields} (h : (Fields.read merged field).isBlank = false) :
    Fields.read (rules.foldl (fillRule existing) merged) field = Fields.read merged field := by
  induction rules generalizing merged with
  | nil => rfl
  | cons rule rules ih =>
    have hstep : Fields.read (fillRule existing merged rule) field = Fields.read merged field := by
      by_cases hf : rule.field = field
      · rw [fillRule, hf, h]
        rfl
      · exact read_fillRule_ne hf
    rw [List.foldl_cons, ih (by rw [hstep, h]), hstep]

/-- An empty value becomes the first one that a rule for its field offers. -/
theorem read_fill_of_blank {existing : Fields} {field : String}
    (rules : List ResolveMergeFieldSpec) {merged : Fields}
    (h : (Fields.read merged field).isBlank = true) :
    Fields.read (rules.foldl (fillRule existing) merged) field =
      (firstFallback existing field rules).getD (Fields.read merged field) := by
  induction rules generalizing merged with
  | nil => rfl
  | cons rule rules ih =>
    rw [List.foldl_cons]
    by_cases hf : rule.field = field
    · subst hf
      cases hb : (fallback existing rule).isBlank with
      | true =>
        have hskip : fillRule existing merged rule = merged := by
          rw [fillRule, hb, Bool.not_true, Bool.and_false]
          rfl
        rw [hskip, ih h]
        simp [firstFallback, hb]
      | false =>
        have hset : fillRule existing merged rule =
            Dict.set merged rule.field (fallback existing rule) := by
          rw [fillRule, h, hb]
          rfl
        have hread : Fields.read (fillRule existing merged rule) rule.field =
            fallback existing rule := by rw [hset, Fields.read_set_self]
        rw [read_fill_of_set rules (by rw [hread, hb]), hread]
        simp [firstFallback, hb]
    · have hread : Fields.read (fillRule existing merged rule) field = Fields.read merged field :=
        read_fillRule_ne hf
      rw [ih (by rw [hread, h]), hread]
      simp [firstFallback, hf]

section Builder
variable (fields dropFields : List String) (row : Fields)

theorem nodup_built : (Dict.keys (buildDesiredState fields dropFields row)).Nodup := by
  have hfold (d : Fields) (hd : (Dict.keys d).Nodup) : (Dict.keys (fields.foldl
      (fun result name => Dict.set result name (Fields.read row name)) d)).Nodup := by
    induction fields generalizing d with
    | nil => exact hd
    | cons name names ih => exact ih _ (Dict.nodup_keys_set hd name _)
  exact List.Nodup.sublist (List.Sublist.map _ List.filter_sublist) (hfold [] List.nodup_nil)

/-- The keys of a built state are the declared fields that are not dropped. -/
theorem mem_keys_built {name : String} :
    name ∈ Dict.keys (buildDesiredState fields dropFields row) ↔
      name ∈ fields ∧ name ∉ dropFields := by
  have hfold (d : Fields) : name ∈ Dict.keys (fields.foldl
      (fun result name => Dict.set result name (Fields.read row name)) d) ↔
        name ∈ Dict.keys d ∨ name ∈ fields := by
    induction fields generalizing d with
    | nil => simp
    | cons first names ih =>
      rw [List.foldl_cons, ih, List.mem_cons]
      by_cases hname : name = first
      · subst hname
        simp [Dict.mem_keys_iff]
      · rw [Dict.mem_keys_iff, Dict.get?_set_ne _ _ (Ne.symm hname), ← Dict.mem_keys_iff]
        simp [hname]
  have hkeys : name ∈ Dict.keys (buildDesiredState fields dropFields row) ↔
      name ∈ Dict.keys (fields.foldl
        (fun result name => Dict.set result name (Fields.read row name)) []) ∧
          name ∉ dropFields := by
    unfold buildDesiredState Dict.keys
    simp only [List.mem_map, List.mem_filter, decide_eq_true_eq]
    constructor
    · rintro ⟨kv,⟨hmem,hdrop⟩,rfl⟩
      exact ⟨⟨kv,hmem,rfl⟩,hdrop⟩
    · rintro ⟨⟨kv,hmem,rfl⟩,hdrop⟩
      exact ⟨kv,⟨hmem,hdrop⟩,rfl⟩
  rw [hkeys, hfold]
  simp [Dict.keys]

end Builder
end ResolveDsl

namespace ResolveCore

open ResolveDsl

variable {core : ResolveCore} {db : IdentityDb} {call : ResolveCall}

/-- The merge is done: empty fields hold what their rules offer from the existing record and
the values of the row stay, apart from link fields. -/
structure MergeFills (core : ResolveCore) (spec : ResolveMergeSpec) (matched : MatchedRow)
    (resolved : Fields) : Prop where
  fills : ∀ rule ∈ spec.fields, (∀ link ∈ core.linkRules, link.field ≠ rule.field) →
    (Fields.read matched.desiredState rule.field).isBlank = true →
    (fallback (matched.existing.getD []) rule).isBlank = false →
    Fields.read resolved rule.field = fallback (matched.existing.getD []) rule
  keeps : ∀ field, (∀ link ∈ core.linkRules, link.field ≠ field) →
    (Fields.read matched.desiredState field).isBlank = false →
    Fields.read resolved field = Fields.read matched.desiredState field

/-- The state after the policy, read at one field. -/
theorem read_merged {spec : ResolveMergeSpec} {merged : Fields} {mutated : List String}
    (hpolicy : core.resolveRules.mergePolicy = compileMerge (some spec))
    (hmode : spec.mode = .fillEmptyFromExisting)
    (hexisting : call.matched.existing.getD [] ≠ [])
    (hkeys : (Dict.keys call.matched.desiredState).Nodup)
    (hm : core.applyMergePolicy call.matched = .ok (merged,mutated)) (field : String) :
    Fields.read merged field =
      if field ∈ Dict.keys call.matched.desiredState then
        Fields.read call.matched.desiredState field
      else Fields.read (spec.fields.foldl (fillRule (call.matched.existing.getD []))
        call.matched.desiredState) field := by
  have hmerged : merged = Dict.update (spec.fields.foldl
      (fillRule (call.matched.existing.getD [])) call.matched.desiredState)
      call.matched.desiredState := by
    rw [applyMergePolicy, hpolicy, compileMerge, hmode] at hm
    simp only [hexisting, if_false] at hm
    cases hm
    rfl
  rw [hmerged, Fields.read, Dict.get?_update _ hkeys]
  by_cases hin : field ∈ Dict.keys call.matched.desiredState
  · rw [if_pos hin]
    obtain ⟨v,hv⟩ := Option.isSome_iff_exists.mp (Dict.mem_keys_iff.mp hin)
    rw [Fields.read, hv]
    rfl
  · rw [if_neg hin, Dict.get?_eq_none hin]
    rfl

/-- A matched row is resolved only with an existing record that has an identifier. -/
theorem existing_ne_nil (hstatus : resolveDecisionStatus call.matched = .matched)
    (ht : (resolveTargetId call.matched call.targetIdMap).truthy = true) :
    call.matched.existing.getD [] ≠ [] := by
  intro hnil
  rw [resolveTargetId, if_pos hstatus, existingId, if_pos hstatus, hnil] at ht
  cases ht

/-- A resolved row has its empty fields filled exactly when each of them is undeclared, so
that the builder set no key for it, and no earlier rule offered another value. -/
theorem merge_fills_iff {spec : ResolveMergeSpec} {fields dropFields : List String}
    {source : Fields} {r : Resolution} {row : ResolvedRow}
    (hpolicy : core.resolveRules.mergePolicy = compileMerge (some spec))
    (hmode : spec.mode = .fillEmptyFromExisting)
    (hstatus : resolveDecisionStatus call.matched = .matched)
    (hbuilt : call.matched.desiredState = buildDesiredState fields dropFields source)
    (hr : (core.resolve db call).result = .ok r) (hrow : r.row = some row) :
    MergeFills core spec call.matched row.desiredState ↔
      ∀ rule ∈ spec.fields, (∀ link ∈ core.linkRules, link.field ≠ rule.field) →
        (Fields.read call.matched.desiredState rule.field).isBlank = true →
        (fallback (call.matched.existing.getD []) rule).isBlank = false →
        ¬ (rule.field ∈ fields ∧ rule.field ∉ dropFields) ∧
          firstFallback (call.matched.existing.getD []) rule.field spec.fields =
            some (fallback (call.matched.existing.getD []) rule) := by
  obtain ⟨s,hent,hb,_⟩ := resolve_row hr hrow
  obtain ⟨merged,mutated,hm,ht⟩ := hent.traced
  have hkeys : (Dict.keys call.matched.desiredState).Nodup := by
    rw [hbuilt]
    exact nodup_built ..
  have hexisting := existing_ne_nil hstatus hb.target
  have hdesired : row.desiredState = s.desired := (buildResolvedRow_spec hb.built).2.2.1
  -- what the row holds in a field that no link rule touches
  have hread (field : String) (hfree : ∀ link ∈ core.linkRules, link.field ≠ field) :
      Fields.read row.desiredState field =
        if field ∈ Dict.keys call.matched.desiredState then
          Fields.read call.matched.desiredState field
        else Fields.read (spec.fields.foldl (fillRule (call.matched.existing.getD []))
          call.matched.desiredState) field := by
    rw [hdesired, ht.frame field hfree]
    exact read_merged hpolicy hmode hexisting hkeys hm field
  have hdeclared (field : String) : field ∈ Dict.keys call.matched.desiredState ↔
      field ∈ fields ∧ field ∉ dropFields := by
    rw [hbuilt]
    exact mem_keys_built ..
  constructor
  · intro hfills rule hrule hfree hblank hfall
    have hgot := hfills.fills rule hrule hfree hblank hfall
    rw [hread rule.field hfree] at hgot
    by_cases hin : rule.field ∈ Dict.keys call.matched.desiredState
    · rw [if_pos hin] at hgot
      rw [hgot, hfall] at hblank
      cases hblank
    · rw [if_neg hin, read_fill_of_blank spec.fields hblank] at hgot
      refine ⟨fun hdecl => hin ((hdeclared _).mpr hdecl),?_⟩
      cases hfirst : firstFallback (call.matched.existing.getD []) rule.field spec.fields with
      | none =>
        rw [hfirst] at hgot
        have hsame : Fields.read call.matched.desiredState rule.field =
            fallback (call.matched.existing.getD []) rule := hgot
        rw [hsame, hfall] at hblank
        cases hblank
      | some v =>
        rw [hfirst] at hgot
        exact congrArg some hgot
  · intro hcond
    constructor
    · intro rule hrule hfree hblank hfall
      obtain ⟨hundeclared,hfirst⟩ := hcond rule hrule hfree hblank hfall
      rw [hread rule.field hfree, if_neg fun hin => hundeclared ((hdeclared _).mp hin),
        read_fill_of_blank spec.fields hblank, hfirst]
      rfl
    · intro field hfree hset
      rw [hread field hfree]
      by_cases hin : field ∈ Dict.keys call.matched.desiredState
      · rw [if_pos hin]
      · rw [if_neg hin]
        exact read_fill_of_set spec.fields hset

/-- The phone is filled from the existing record. -/
def phoneMerge : ResolveMergeSpec where
  mode := .fillEmptyFromExisting
  fields := [{ field := "phone" }]
  fields_ne := by simp

def mergingCore : ResolveCore :=
  { plainCore [] with resolveRules := { mergePolicy := compileMerge (some phoneMerge) } }

/-- A matched row without a phone, whose existing record has one. -/
def knownEmployee : ResolveCall :=
  callOn { newRow 2 "line:2" "E1" .null
      (buildDesiredState ["name", "phone"] [] [("name",.str "Ann")]) with
    existing := some [("_id",.str "emp-1"),("name",.str "Ann"),("phone",.str "555")]
    matchDecision :=
      { status := .matched, reasonCode := "identity", message := none
        selected := none, candidates := [], score := none, topologyMatchMode := none
        topologyReason := none, topologyEvidence := [], metadata := [] } }

/-- What becomes of the row. -/
def unfilledEmployee : ResolvedRow :=
  { rowRef := knownEmployee.matched.rowRef, identity := knownEmployee.matched.identity, op := .update
    desiredState := [("name",.str "Ann"),("phone",.null)]
    existing := knownEmployee.matched.existing, changes := [("phone",.null)]
    targetId := .str "emp-1", sourceRef := none, secretFields := [], secretLifecycle := none }

theorem knownEmployee_resolved :
    (mergingCore.resolve .empty knownEmployee).result = .ok ⟨some unfilledEmployee,[],[]⟩ := by
  decide

/-- The phone stays empty, although the policy offers the one of the existing record, and
the update erases the phone of the target. -/
theorem declared_field_not_filled :
    (mergingCore.resolve .empty knownEmployee).result = .ok ⟨some unfilledEmployee,[],[]⟩ ∧
      ¬ MergeFills mergingCore phoneMerge knownEmployee.matched unfilledEmployee.desiredState := by
  refine ⟨knownEmployee_resolved,fun hfills => ?_⟩
  have hphone := hfills.fills { field := "phone" } (List.mem_singleton.mpr rfl) (by simp [mergingCore,
    plainCore]) (by decide) (by decide)
  revert hphone
  decide

theorem merge_fills_iff_employee :
    MergeFills mergingCore phoneMerge knownEmployee.matched unfilledEmployee.desiredState ↔
      ∀ rule ∈ phoneMerge.fields, (∀ link ∈ mergingCore.linkRules, link.field ≠ rule.field) →
        (Fields.read knownEmployee.matched.desiredState rule.field).isBlank = true →
        (fallback (knownEmployee.matched.existing.getD []) rule).isBlank = false →
        ¬ (rule.field ∈ ["name", "phone"] ∧ rule.field ∉ ([] : List String)) ∧
          firstFallback (knownEmployee.matched.existing.getD []) rule.field phoneMerge.fields =
            some (fallback (knownEmployee.matched.existing.getD []) rule) :=
  merge_fills_iff rfl rfl (by decide) rfl knownEmployee_resolved rfl

end ResolveCore
end NexusEtl
