import NexusEtl.MergeFill
import NexusEtl.Canonicalization
import NexusEtl.CacheDsl
import NexusEtl.Library.Patches

/-!
# The declarative diff policy

A diff rule compares one field of the desired state with one key of the
existing record after the normalization of its mode. The rules come from the
specification or from the sink fields, which the specification then overrides.
The loop of the policy collects the patch of its rules.
-/

set_option autoImplicit false

namespace NexusEtl
open NexusEtl.Library

structure ResolveDiffFieldSpec where
  field : String
  existing : Option String := .none
  output : Option String := .none
  normalize : NormalizeMode := .none
  deriving DecidableEq, Repr

structure FromSinkSpec where
  enabled : Bool := false
  excludeFields : List String := []
  normalizeByType : Bool := true
  deriving DecidableEq, Repr

structure ResolveDiffSpec where
  fields : List ResolveDiffFieldSpec := []
  ignoreFields : List String := []
  fromSink : FromSinkSpec := {}
  fields_ne : fields = [] → fromSink.enabled = true

namespace ResolveDiffFieldSpec

/-- `rule.existing or rule.field` -/
def existingKey (rule : ResolveDiffFieldSpec) : String :=
  (rule.existing.filter (· ≠ "")).getD rule.field

/-- `rule.output or rule.field` -/
def outputKey (rule : ResolveDiffFieldSpec) : String :=
  (rule.output.filter (· ≠ "")).getD rule.field

end ResolveDiffFieldSpec

namespace ResolveDsl

/-- The rule that a sink field generates. -/
def sinkRule (byType : Bool) (sinkField : SinkFieldSpec) : ResolveDiffFieldSpec where
  field := sinkField.name
  normalize :=
    if byType then match sinkField.type with
      | .string => .text
      | .bool => .bool
      | _ => .none
    else .none

/-- The rules so far with the positions of their fields, as `_build_diff_rules` keeps them. -/
structure RuleTable where
  rules : List ResolveDiffFieldSpec
  fieldPos : Dict String Nat

def RuleTable.append (table : RuleTable) (rule : ResolveDiffFieldSpec) : RuleTable where
  rules := table.rules ++ [rule]
  fieldPos := Dict.set table.fieldPos rule.field table.rules.length

def addSinkField (fromSink : FromSinkSpec) (table : RuleTable) (sinkField : SinkFieldSpec) :
    RuleTable :=
  if sinkField.name ∈ fromSink.excludeFields then table
  else table.append (sinkRule fromSink.normalizeByType sinkField)

def addOverride (table : RuleTable) (override : ResolveDiffFieldSpec) : RuleTable :=
  match Dict.get? table.fieldPos override.field with
  | none => table.append override
  | some idx => { table with rules := table.rules.set idx override }

/-- `_build_diff_rules` -/
def buildDiffRules (spec : ResolveDiffSpec) (sinkSpec : Option SinkSpec) :
    Except DslLoadError (List ResolveDiffFieldSpec) :=
  if !spec.fromSink.enabled then .ok spec.fields
  else match sinkSpec with
    | none => .error {
        code := "RESOLVE_DSL_COMPILE_INVALID"
        message := "resolve.diff.from_sink.enabled=true requires sink_spec for ResolveDsl.compile()"
        details := [] }
    | some sink => .ok (spec.fields.foldl addOverride
        (sink.fields.foldl (addSinkField spec.fromSink) ⟨[],[]⟩)).rules

def desiredValue (desired : Fields) (rule : ResolveDiffFieldSpec) : Value :=
  normalizeForMode (Fields.read desired rule.field) rule.normalize

/-- Whether a rule that is not ignored finds another value than the desired one. -/
def differs (ignored : List String) (desired : Fields) (rule : ResolveDiffFieldSpec)
    (stored : Option Value) : Bool :=
  decide (rule.field ∉ ignored) &&
    !Value.pyEq (normalizeForMode (stored.getD .null) rule.normalize) (desiredValue desired rule)

/-- The body of `_diff`: the rules in order, a later entry replaces one of the same key. -/
def diff (rules : List ResolveDiffFieldSpec) (ignored : List String) (existing : Option Fields)
    (desired : Fields) : Fields :=
  let record := existing.getD []
  if record = [] then []
  else rules.foldl (fun changes rule =>
    if differs ignored desired rule (Dict.get? record rule.existingKey) then
      Dict.set changes rule.outputKey (desiredValue desired rule)
    else changes) []

/-- `_compile_diff` -/
def compileDiff (spec : ResolveDiffSpec) (sinkSpec : Option SinkSpec) :
    Except DslLoadError (Option Fields → Fields → Except PyException Fields) := do
  let rules ← buildDiffRules spec sinkSpec
  return fun existing desired => .ok (diff rules spec.ignoreFields existing desired)

/-- Changes written into the existing record, each to the existing key of its rule. -/
def writeChanges (rules : List ResolveDiffFieldSpec) (changes record : Fields) : Fields :=
  Patches.write ResolveDiffFieldSpec.existingKey ResolveDiffFieldSpec.outputKey rules changes record

/-! ## Normal forms -/

theorem normalizeText_idem (v : Value) : normalizeText (normalizeText v) = normalizeText v := by
  have hjoin (s : String) : Text.join " " (Text.words (Text.join " " (Text.words s))) =
      Text.join " " (Text.words s) :=
    Text.join_words_eq_iff.mpr ⟨wordsBy Text.isSpace s.toList,fun _ hw => isWord_of_mem hw,rfl⟩
  cases v with
  | null => rfl
  | _ => exact congrArg Value.str (hjoin _)

/-- The bool mode gives a truth value or nothing. -/
theorem toBool_cases (v : Value) : (∃ b, toBool v = .bool b) ∨ toBool v = .null := by
  cases v with
  | bool b => exact .inl ⟨b,rfl⟩
  | int n => exact .inl ⟨n != 0,rfl⟩
  | str s =>
    simp only [toBool]
    split
    · exact .inl ⟨true,rfl⟩
    · split
      · exact .inl ⟨false,rfl⟩
      · exact .inr rfl
  | _ => exact .inr rfl

theorem normalizeForMode_idem (v : Value) (mode : NormalizeMode) :
    normalizeForMode (normalizeForMode v mode) mode = normalizeForMode v mode := by
  cases mode with
  | none => rfl
  | text => exact normalizeText_idem v
  | bool =>
    show toBool (toBool v) = toBool v
    rcases toBool_cases v with ⟨b,h⟩ | h <;> rw [h] <;> rfl

/-- A value equals itself; every value that holds no NaN does. -/
def EqualsItself (v : Value) : Prop := Value.pyEq v v = true

theorem equalsItself_normalized (v : Value) {mode : NormalizeMode}
    (h : mode = .none → EqualsItself v) : EqualsItself (normalizeForMode v mode) := by
  cases mode with
  | none => exact h rfl
  | text => cases v <;> simp [normalizeForMode, normalizeText, EqualsItself, Value.pyEq]
  | bool =>
    show EqualsItself (toBool v)
    rcases toBool_cases v with ⟨b,h⟩ | h <;> rw [h] <;>
      simp [EqualsItself, Value.pyEq, Value.number?]

/-- A rule is content with the value that it wants. -/
theorem differs_desired {ignored : List String} {desired : Fields} {rule : ResolveDiffFieldSpec}
    (h : rule.normalize = .none → EqualsItself (Fields.read desired rule.field)) :
    differs ignored desired rule (some (desiredValue desired rule)) = false := by
  have hself : Value.pyEq (desiredValue desired rule) (desiredValue desired rule) = true :=
    equalsItself_normalized _ h
  have hnormal : normalizeForMode (desiredValue desired rule) rule.normalize =
      desiredValue desired rule := normalizeForMode_idem _ _
  rw [differs, Option.getD_some, hnormal, hself]
  exact Bool.and_false _

/-! ## The policy collects a patch -/

theorem diff_eq_patch {rules : List ResolveDiffFieldSpec} {ignored : List String}
    {record desired : Fields} (houtputs : (rules.map ResolveDiffFieldSpec.outputKey).Nodup)
    (hrecord : record ≠ []) :
    diff rules ignored (some record) desired =
      Patches.patch ResolveDiffFieldSpec.existingKey ResolveDiffFieldSpec.outputKey
        (desiredValue desired) (differs ignored desired) rules record := by
  rw [← Patches.foldl_eq_patch houtputs record]
  exact if_neg hrecord

theorem diff_written {rules : List ResolveDiffFieldSpec} {ignored : List String}
    {record desired : Fields} (hplaces : (rules.map ResolveDiffFieldSpec.existingKey).Nodup)
    (houtputs : (rules.map ResolveDiffFieldSpec.outputKey).Nodup)
    (hself : ∀ rule ∈ rules, rule.normalize = .none →
      EqualsItself (Fields.read desired rule.field)) (hrecord : record ≠ []) :
    diff rules ignored (some (writeChanges rules (diff rules ignored (some record) desired)
      record)) desired = [] := by
  rw [diff_eq_patch houtputs hrecord]
  by_cases hempty : writeChanges rules (Patches.patch ResolveDiffFieldSpec.existingKey
      ResolveDiffFieldSpec.outputKey (desiredValue desired) (differs ignored desired) rules
        record) record = []
  · exact if_pos hempty
  · rw [diff_eq_patch houtputs hempty]
    exact Patches.patch_write hplaces houtputs
      (fun rule hrule => differs_desired (hself rule hrule)) record

/-! ## The rules in force -/

def RuleTable.byField (table : RuleTable) : Dict String ResolveDiffFieldSpec :=
  table.rules.map fun rule => (rule.field,rule)

/-- One rule for each field, at the position that the table has for it. -/
structure RuleTable.Consistent (table : RuleTable) : Prop where
  nodup : (table.rules.map ResolveDiffFieldSpec.field).Nodup
  position : ∀ name idx, Dict.get? table.fieldPos name = some idx ↔
    (table.rules.map ResolveDiffFieldSpec.field)[idx]? = some name

theorem RuleTable.keys_byField (table : RuleTable) :
    Dict.keys table.byField = table.rules.map ResolveDiffFieldSpec.field := by
  simp [byField, Dict.keys]

theorem RuleTable.get?_byField (table : RuleTable) (name : String) :
    Dict.get? table.byField name = table.rules.find? fun rule => rule.field = name := by
  unfold byField
  induction table.rules with
  | nil => rfl
  | cons rule rules ih =>
    by_cases hname : rule.field = name
    · simp [Dict.get?, hname]
    · simpa [Dict.get?, hname] using ih

theorem getElem?_concat_iff {α : Type} (l : List α) (a x : α) (i : Nat) :
    (l ++ [a])[i]? = some x ↔ l[i]? = some x ∨ i = l.length ∧ a = x := by
  rcases Nat.lt_trichotomy i l.length with h | h | h
  · rw [List.getElem?_append_left h]
    simp [Nat.ne_of_lt h]
  · simp [h]
  · have hout : (l ++ [a])[i]? = none := List.getElem?_eq_none (by simp; omega)
    simp [hout, List.getElem?_eq_none (Nat.le_of_lt h), Nat.ne_of_gt h]

theorem RuleTable.Consistent.append {table : RuleTable} (h : table.Consistent)
    {rule : ResolveDiffFieldSpec}
    (hfresh : rule.field ∉ table.rules.map ResolveDiffFieldSpec.field) :
    (table.append rule).Consistent := by
  constructor
  · show ((table.rules ++ [rule]).map ResolveDiffFieldSpec.field).Nodup
    rw [List.map_append, List.nodup_append]
    refine ⟨h.nodup,by simp,?_⟩
    rintro a ha b hb rfl
    exact hfresh (List.mem_singleton.mp hb ▸ ha)
  · intro name idx
    show Dict.get? (Dict.set table.fieldPos rule.field table.rules.length) name = some idx ↔
      ((table.rules ++ [rule]).map ResolveDiffFieldSpec.field)[idx]? = some name
    rw [Dict.get?_set, List.map_append, List.map_singleton, getElem?_concat_iff, List.length_map]
    by_cases hname : rule.field = name
    · subst hname
      have hold : (table.rules.map ResolveDiffFieldSpec.field)[idx]? ≠ some rule.field :=
        fun heq => hfresh (List.mem_of_getElem? heq)
      simp only [if_true, Option.some.injEq, hold, false_or, and_true]
      exact eq_comm
    · simp only [hname, if_false, h.position, and_false, or_false]

theorem RuleTable.byField_append {table : RuleTable} {rule : ResolveDiffFieldSpec}
    (hfresh : rule.field ∉ table.rules.map ResolveDiffFieldSpec.field) :
    (table.append rule).byField = Dict.set table.byField rule.field rule := by
  rw [Dict.set_eq_append (by rwa [keys_byField])]
  exact List.map_append

/-- Setting a key that a dictionary has changes the entry at its position. -/
theorem set_eq_listSet {α : Type} {d : Dict String α} {name : String} {idx : Nat}
    (hkeys : (Dict.keys d).Nodup) (h : (Dict.keys d)[idx]? = some name) (v : α) :
    Dict.set d name v = List.set d idx (name,v) := by
  induction d generalizing idx with
  | nil => cases h
  | cons kv d ih =>
    obtain ⟨k,w⟩ := kv
    obtain ⟨hfresh,hrest⟩ := List.nodup_cons.mp hkeys
    cases idx with
    | zero =>
      obtain rfl : k = name := by simpa [Dict.keys] using h
      simp [Dict.set]
    | succ idx =>
      have hin : (Dict.keys d)[idx]? = some name := h
      have hne : k ≠ name := by
        rintro rfl
        exact hfresh (List.mem_of_getElem? hin)
      simp [Dict.set, hne, ih hrest hin]

/-- An override takes the place of the rule of its field, or stands at the end. -/
theorem RuleTable.Consistent.override {table : RuleTable} (h : table.Consistent)
    (rule : ResolveDiffFieldSpec) :
    (addOverride table rule).Consistent ∧
      (addOverride table rule).byField = Dict.set table.byField rule.field rule := by
  unfold addOverride
  cases hpos : Dict.get? table.fieldPos rule.field with
  | none =>
    have hfresh : rule.field ∉ table.rules.map ResolveDiffFieldSpec.field := by
      intro hmem
      obtain ⟨idx,hidx⟩ := List.mem_iff_getElem?.mp hmem
      rw [(h.position _ _).mpr hidx] at hpos
      cases hpos
    exact ⟨h.append hfresh,byField_append hfresh⟩
  | some idx =>
    have hidx := (h.position _ _).mp hpos
    have hfields : (table.rules.set idx rule).map ResolveDiffFieldSpec.field =
        table.rules.map ResolveDiffFieldSpec.field := by
      rw [List.map_set]
      apply List.ext_getElem?
      intro i
      rw [List.getElem?_set]
      split
      · next heq =>
        subst heq
        obtain ⟨hlt,_⟩ := List.getElem?_eq_some_iff.mp hidx
        rw [if_pos hlt, hidx]
      · rfl
    constructor
    · constructor
      · show ((table.rules.set idx rule).map ResolveDiffFieldSpec.field).Nodup
        rw [hfields]
        exact h.nodup
      · intro name i
        show _ ↔ ((table.rules.set idx rule).map ResolveDiffFieldSpec.field)[i]? = some name
        rw [hfields]
        exact h.position name i
    · have hkeys : (Dict.keys table.byField).Nodup := by
        rw [keys_byField]
        exact h.nodup
      rw [set_eq_listSet hkeys (by rwa [keys_byField])]
      exact List.map_set

theorem overrides_spec (overrides : List ResolveDiffFieldSpec) {table : RuleTable}
    (h : table.Consistent) :
    (overrides.foldl addOverride table).Consistent ∧
      (overrides.foldl addOverride table).byField =
        overrides.foldl (fun acc rule => Dict.set acc rule.field rule) table.byField := by
  induction overrides generalizing table with
  | nil => exact ⟨h,rfl⟩
  | cons rule overrides ih =>
    obtain ⟨hnext,hfield⟩ := h.override rule
    obtain ⟨hall,heq⟩ := ih hnext
    rw [hfield] at heq
    exact ⟨hall,heq⟩

/-- The rules of the sink fields that are not excluded. -/
def generatedRules (fromSink : FromSinkSpec) (sink : SinkSpec) : List ResolveDiffFieldSpec :=
  (sink.fields.filter fun f => f.name ∉ fromSink.excludeFields).map
    (sinkRule fromSink.normalizeByType)

theorem sinkFields_spec (fromSink : FromSinkSpec) (fields : List SinkFieldSpec)
    {table : RuleTable} (h : table.Consistent)
    (hnames : (table.rules.map ResolveDiffFieldSpec.field ++
      fields.map SinkFieldSpec.name).Nodup) :
    (fields.foldl (addSinkField fromSink) table).Consistent ∧
      (fields.foldl (addSinkField fromSink) table).rules = table.rules ++
        (fields.filter fun f => f.name ∉ fromSink.excludeFields).map
          (sinkRule fromSink.normalizeByType) := by
  induction fields generalizing table with
  | nil => exact ⟨h,by simp⟩
  | cons field fields ih =>
    rw [List.foldl_cons]
    by_cases hexcluded : field.name ∈ fromSink.excludeFields
    · have hskip : addSinkField fromSink table field = table := if_pos hexcluded
      have hrest : (table.rules.map ResolveDiffFieldSpec.field ++
          fields.map SinkFieldSpec.name).Nodup :=
        hnames.sublist (List.Sublist.append_left (List.sublist_cons_self _ _) _)
      rw [hskip, List.filter_cons_of_neg (by simpa using hexcluded)]
      exact ih h hrest
    · have hadd : addSinkField fromSink table field =
          table.append (sinkRule fromSink.normalizeByType field) := if_neg hexcluded
      have hfresh : field.name ∉ table.rules.map ResolveDiffFieldSpec.field := fun hmem =>
        (List.nodup_append.mp hnames).2.2 _ hmem _ List.mem_cons_self rfl
      have hrest : ((table.append (sinkRule fromSink.normalizeByType field)).rules.map
          ResolveDiffFieldSpec.field ++ fields.map SinkFieldSpec.name).Nodup := by
        simpa [RuleTable.append, sinkRule] using hnames
      obtain ⟨hall,heq⟩ := ih (h.append hfresh) hrest
      rw [hadd, List.filter_cons_of_pos (by simpa using hexcluded)]
      refine ⟨hall,?_⟩
      rw [heq]
      simp [RuleTable.append]

/-- The rule in force for a field: the last override of it, else the generated rule. -/
def ruleInForce (overrides generated : List ResolveDiffFieldSpec) (name : String) :
    Option ResolveDiffFieldSpec :=
  (overrides.reverse.find? fun rule => rule.field = name).or
    (generated.find? fun rule => rule.field = name)

/-- The rules of a specification over sink fields with distinct names: one for each field. -/
theorem rules_in_force {spec : ResolveDiffSpec} {sink : SinkSpec}
    {rules : List ResolveDiffFieldSpec} (hrules : buildDiffRules spec (some sink) = .ok rules)
    (henabled : spec.fromSink.enabled = true)
    (hnames : (sink.fields.map SinkFieldSpec.name).Nodup) :
    (rules.map ResolveDiffFieldSpec.field).Nodup ∧
      ∀ name, rules.find? (fun rule => rule.field = name) =
        ruleInForce spec.fields (generatedRules spec.fromSink sink) name := by
  have hstart : RuleTable.Consistent ⟨[],[]⟩ := ⟨List.nodup_nil,fun _ _ => by simp [Dict.get?]⟩
  obtain ⟨hsink,hgenerated⟩ := sinkFields_spec spec.fromSink sink.fields hstart hnames
  obtain ⟨hall,hfield⟩ := overrides_spec spec.fields hsink
  have htable : (spec.fields.foldl addOverride
      (sink.fields.foldl (addSinkField spec.fromSink) ⟨[],[]⟩)).rules = rules := by
    simpa [buildDiffRules, henabled] using hrules
  rw [← htable]
  refine ⟨hall.nodup,fun name => ?_⟩
  rw [← RuleTable.get?_byField, hfield, Patches.get?_foldl_set ResolveDiffFieldSpec.field,
    RuleTable.get?_byField, hgenerated]
  rfl

/-- The policy lists the rules whose normalized values differ, and writing what it lists leaves
nothing to list. Over sink fields every field has one rule, and an override is that rule. -/
theorem diff_converges {spec : ResolveDiffSpec} {sinkSpec : Option SinkSpec}
    {rules : List ResolveDiffFieldSpec} (hrules : buildDiffRules spec sinkSpec = .ok rules)
    (hexisting : (rules.map ResolveDiffFieldSpec.existingKey).Nodup)
    (houtputs : (rules.map ResolveDiffFieldSpec.outputKey).Nodup) :
    ∃ policy, compileDiff spec sinkSpec = .ok policy ∧
      (∀ existing desired, existing.getD [] = [] → policy existing desired = .ok []) ∧
      (∀ record desired, record ≠ [] →
        ∃ changes, policy (some record) desired = .ok changes ∧
          changes = (rules.filter fun rule => decide (rule.field ∉ spec.ignoreFields) &&
            !Value.pyEq (normalizeForMode (Fields.read record rule.existingKey) rule.normalize)
              (normalizeForMode (Fields.read desired rule.field) rule.normalize)).map
            (fun rule => (rule.outputKey,
              normalizeForMode (Fields.read desired rule.field) rule.normalize)) ∧
          ((∀ rule ∈ rules, rule.normalize = .none →
              EqualsItself (Fields.read desired rule.field)) →
            policy (some (writeChanges rules changes record)) desired = .ok [])) ∧
      (∀ sink, sinkSpec = some sink → spec.fromSink.enabled = true →
        (sink.fields.map SinkFieldSpec.name).Nodup →
          (rules.map ResolveDiffFieldSpec.field).Nodup ∧
            ∀ name, rules.find? (fun rule => rule.field = name) =
              (spec.fields.reverse.find? fun rule => rule.field = name).or
                ((generatedRules spec.fromSink sink).find? fun rule => rule.field = name)) := by
  have hcompiled : compileDiff spec sinkSpec = .ok fun existing desired =>
      .ok (diff rules spec.ignoreFields existing desired) := by
    rw [compileDiff, hrules]
    rfl
  refine ⟨_,hcompiled,?_,?_,?_⟩
  · intro existing desired hempty
    exact congrArg Except.ok (if_pos hempty)
  · intro record desired hrecord
    refine ⟨_,rfl,diff_eq_patch houtputs hrecord,fun hself => ?_⟩
    exact congrArg Except.ok (diff_written hexisting houtputs hself hrecord)
  · rintro sink rfl henabled hnames
    exact rules_in_force hrules henabled hnames

def personDiffSpec : ResolveDiffSpec where
  fields := [{ field := "manager", existing := some "manager_id", output := some "managerId" }]
  ignoreFields := ["updated_at"]
  fromSink := { enabled := true, excludeFields := ["_id"] }
  fields_ne := by decide

def personSink : SinkSpec where
  fields := [⟨"_id",.string,true,false⟩,⟨"name",.string,true,false⟩,⟨"active",.bool,false,true⟩,
    ⟨"manager",.int,false,true⟩,⟨"updated_at",.string,false,true⟩]
  systemFields := []

/-- One row of a person: the name and the manager change, and then nothing does. -/
theorem diff_converges_person : ∃ policy,
    compileDiff personDiffSpec (some personSink) = .ok policy ∧
      policy (some [("name",.str "Ann"),("active",.int 1),("manager_id",.int 5)])
        [("name",.str " Ann  Lee "),("active",.str "yes"),("manager",.int 7)] =
          .ok [("name",.str "Ann Lee"),("managerId",.int 7)] ∧
      policy (some [("name",.str "Ann Lee"),("active",.int 1),("manager_id",.int 7)])
        [("name",.str " Ann  Lee "),("active",.str "yes"),("manager",.int 7)] = .ok [] := by
  obtain ⟨policy,hcompiled,-,hchanges,-⟩ := @diff_converges personDiffSpec
    (some personSink)
    [{ field := "name", normalize := .text }, { field := "active", normalize := .bool },
      { field := "manager", existing := some "manager_id", output := some "managerId" },
      { field := "updated_at", normalize := .text }] (by rfl) (by decide) (by decide)
  obtain ⟨changes,hpolicy,hlist,hdone⟩ := hchanges
    [("name",.str "Ann"),("active",.int 1),("manager_id",.int 5)]
    [("name",.str " Ann  Lee "),("active",.str "yes"),("manager",.int 7)] (by simp)
  have hval : changes = [("name",.str "Ann Lee"),("managerId",.int 7)] := by
    rw [hlist]
    decide
  subst hval
  have hself : ∀ rule ∈ ([{ field := "name", normalize := .text },
      { field := "active", normalize := .bool },
      { field := "manager", existing := some "manager_id", output := some "managerId" },
      { field := "updated_at", normalize := .text }] : List ResolveDiffFieldSpec),
      rule.normalize = .none → EqualsItself (Fields.read
        [("name",.str " Ann  Lee "),("active",.str "yes"),("manager",.int 7)] rule.field) := by
    unfold EqualsItself
    decide
  exact ⟨policy,hcompiled,hpolicy,hdone hself⟩

/-- An empty record is no record: the policy lists nothing, though the name differs. -/
theorem diff_of_empty_record : ∃ policy,
    compileDiff { fields := [{ field := "name", normalize := .text }], fields_ne := by decide }
      none = .ok policy ∧
      Value.pyEq (normalizeForMode (Fields.read [] "name") .text)
        (normalizeForMode (Fields.read [("name",.str "Ann")] "name") .text) = false ∧
      policy (some []) [("name",.str "Ann")] = .ok [] :=
  ⟨_,rfl,by decide,by decide⟩

end ResolveDsl

namespace ResolveCore

/-- A matched row whose record holds the changes of its last update is skipped. -/
theorem decideOp_written {core : ResolveCore} {spec : ResolveDiffSpec}
    {sinkSpec : Option SinkSpec} {rules : List ResolveDiffFieldSpec}
    {policy : Option Fields → Fields → Except PyException Fields} {record desired : Fields}
    (hrules : ResolveDsl.buildDiffRules spec sinkSpec = .ok rules)
    (hpolicy : ResolveDsl.compileDiff spec sinkSpec = .ok policy)
    (hcore : core.resolveRules.diffPolicy = some policy)
    (hexisting : (rules.map ResolveDiffFieldSpec.existingKey).Nodup)
    (houtputs : (rules.map ResolveDiffFieldSpec.outputKey).Nodup)
    (hself : ∀ rule ∈ rules, rule.normalize = .none →
      ResolveDsl.EqualsItself (Fields.read desired rule.field)) (hrecord : record ≠ [])
    {matched : MatchedRow} (hstatus : resolveDecisionStatus matched = .matched)
    (hmatched : matched.existing = some (ResolveDsl.writeChanges rules
      (ResolveDsl.diff rules spec.ignoreFields (some record) desired) record)) :
    core.decideOp matched desired = .ok (.skip,[]) := by
  have hdiff : core.diffOf matched desired = .ok [] := by
    rw [ResolveDsl.compileDiff, hrules] at hpolicy
    cases hpolicy
    rw [diffOf, hcore, hmatched]
    exact congrArg Except.ok (ResolveDsl.diff_written hexisting houtputs hself hrecord)
  have hfast : core.canSkipWithFingerprint matched desired = false := by
    rw [canSkipWithFingerprint, hmatched, hcore]
    simp
  rw [decideOp, hstatus, hfast, hdiff]
  rfl

end ResolveCore
end NexusEtl
