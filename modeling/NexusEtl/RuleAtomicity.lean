import NexusEtl.Normalizer
import NexusEtl.EngineRuns

/-!
# Failing normalize rules

The engine hands back the value that it had when a call failed, and the normalizer writes
it into the field. Set against it stands a normalizer that writes only what a whole chain
gives. On which rows the two hold the same values after every rule is settled here.
-/

set_option autoImplicit false

namespace NexusEtl
open NexusEtl.Library

namespace NormalizerCore

variable (core : NormalizerCore)

theorem sinkIssues_severity {state : State} {issue : DslIssue}
    (h : issue ∈ core.sinkIssues state) : issue.severity = .error := by
  unfold sinkIssues at h
  cases hspec : core.sinkSpec with
  | none =>
    rw [hspec] at h
    cases h
  | some spec =>
    simp only [hspec] at h
    split at h
    · obtain ⟨name,-,hname⟩ := List.mem_flatMap.mp h
      split at hname
      · exact validateField_severity hname
      · cases hname
    · obtain ⟨field,-,hfield⟩ := List.mem_flatMap.mp h
      exact validateField_severity hfield

/-- A normalizer that leaves a field alone when the rule's chain fails. -/
def keepRule (values : Fields) (rule : NormalizeRule) : Fields :=
  if rule.ops = [] then values
  else match runCalls core.registry (Fields.read values rule.field) rule.ops with
    | some v => Dict.set values rule.field v
    | none => values

def expected (row : Fields) (rules : List NormalizeRule) : Fields := rules.foldl core.keepRule row

def stateAfter (ref : Option RowRef) (row : Fields) (rules : List NormalizeRule) : State :=
  rules.foldl (core.applyRule ref) ⟨row,[],⟨[],[]⟩⟩

def SameValues (a b : Fields) : Prop := ∀ field, Dict.get? a field = Dict.get? b field

/-- Some rule that reports errors fails on the value that its field has then, or the sink
check finds something and its findings are errors. -/
def Reported (ref : Option RowRef) (row : Fields) : Prop :=
  (∃ before rule after v, core.compiled.rules = before ++ rule :: after ∧ rule.onError = .error ∧
      StopsAt core.registry
        (Fields.read (core.stateAfter ref row before).values rule.field) rule.ops v) ∨
    (core.compiled.onError = .error ∧
      core.sinkIssues (core.stateAfter ref row core.compiled.rules) ≠ [])

/-- The row after every rule is that of the normalizer that writes whole chains only; the
result holds it, and is no row exactly when an error was reported. -/
structure LeavesNoTrace (source : TransformResult Fields) (row : Fields) : Prop where
  after_rules : ∀ before, before <+: core.compiled.rules →
    SameValues (core.stateAfter source.rowRef row before).values (core.expected row before)
  result_row : ∀ out, (core.normalize { source with row := some row }).row = some out →
    SameValues out (core.expected row core.compiled.rules)
  other_fields : ∀ field, (∀ rule ∈ core.compiled.rules, rule.ops ≠ [] → rule.field ≠ field) →
    Dict.get? (core.stateAfter source.rowRef row core.compiled.rules).values field =
      Dict.get? row field
  no_row : (core.normalize { source with row := some row }).row = none ↔
    core.Reported source.rowRef row

/-- When a chain fails, the field is there and the calls before have given its value back. -/
def Undone (row : Fields) : Prop :=
  ∀ before rule after, core.compiled.rules = before ++ rule :: after →
    ∀ v, StopsAt core.registry (Fields.read (core.expected row before) rule.field) rule.ops v →
      Dict.get? (core.expected row before) rule.field = some v

variable {core} {ref : Option RowRef} {row : Fields}

theorem stateAfter_append (before : List NormalizeRule) (rule : NormalizeRule) :
    core.stateAfter ref row (before ++ [rule]) =
      core.applyRule ref (core.stateAfter ref row before) rule := by
  rw [stateAfter, List.foldl_append]
  rfl

theorem expected_append (before : List NormalizeRule) (rule : NormalizeRule) :
    core.expected row (before ++ [rule]) = core.keepRule (core.expected row before) rule := by
  rw [expected, List.foldl_append]
  rfl

theorem read_congr {a b : Fields} (h : SameValues a b) (field : String) :
    Fields.read a field = Fields.read b field := by
  rw [Fields.read, Fields.read, h field]

theorem sameValues_set {a b : Fields} (h : SameValues a b) (field : String) (v : Value) :
    SameValues (Dict.set a field v) (Dict.set b field v) := by
  intro other
  rw [Dict.get?_set, Dict.get?_set, h other]

/-- What one rule does to the values: what the whole chain gives is written, and so is the
value that a failing chain stops at. -/
theorem applyRule_values (state : State) (rule : NormalizeRule) :
    (rule.ops = [] ∧ core.applyRule ref state rule = state ∧
      core.keepRule state.values rule = state.values) ∨
    (∃ v, rule.ops ≠ [] ∧ (∀ w, ¬StopsAt core.registry (Fields.read state.values rule.field) rule.ops w) ∧
      (core.applyRule ref state rule).values = Dict.set state.values rule.field v ∧
      core.keepRule state.values rule = Dict.set state.values rule.field v) ∨
    ∃ v, rule.ops ≠ [] ∧
      (∀ w, StopsAt core.registry (Fields.read state.values rule.field) rule.ops w ↔ w = v) ∧
      (core.applyRule ref state rule).values = Dict.set state.values rule.field v ∧
      core.keepRule state.values rule = state.values := by
  by_cases hops : rule.ops = []
  · exact Or.inl ⟨hops,by simp [applyRule, hops],by simp [keepRule, hops]⟩
  · rcases @engineApply_cases core.registry 0 (Fields.read state.values rule.field)
      rule.ops with ⟨v,hruns,happly,hstops⟩ | ⟨v,issue,hruns,-,happly,hstops⟩
    · exact Or.inr (Or.inl ⟨v,hops,hstops,by simp [applyRule, hops, applyOps, happly],
        by simp [keepRule, hops, hruns]⟩)
    · exact Or.inr (Or.inr ⟨v,hops,hstops,by simp [applyRule, hops, applyOps, happly],
        by simp [keepRule, hops, hruns]⟩)

theorem sameValues_keepRule {a b : Fields} (h : SameValues a b) (rule : NormalizeRule) :
    SameValues (core.keepRule a rule) (core.keepRule b rule) := by
  unfold keepRule
  rw [read_congr h rule.field]
  split
  · exact h
  · split
    · exact sameValues_set h _ _
    · exact h

theorem after_rules_iff :
    (∀ before, before <+: core.compiled.rules →
      SameValues (core.stateAfter ref row before).values (core.expected row before)) ↔
      core.Undone row := by
  constructor
  · intro h before rule after hrules v hstop
    have hbefore := h before ⟨rule::after,hrules.symm⟩
    have hafter := h (before ++ [rule]) ⟨after,by rw [hrules, List.append_assoc]; rfl⟩
    rw [stateAfter_append, expected_append] at hafter
    have hkeep := @sameValues_keepRule core _ _ hbefore rule
    rw [← read_congr hbefore] at hstop
    rcases @applyRule_values core ref (core.stateAfter ref row before) rule
      with ⟨hops,-,-⟩ | ⟨w,-,hnone,-,-⟩ | ⟨w,-,hiff,happly,hsame⟩
    · rw [hops] at hstop
      exact absurd hstop not_stopsAt_nil
    · exact absurd hstop (hnone v)
    · obtain rfl := (hiff v).mp hstop
      rw [← hbefore rule.field, ← hsame, hkeep rule.field, ← hafter rule.field, happly,
        Dict.get?_set_self]
  · intro h before
    induction before using List.reverseRecOn with
    | nil => exact fun _ _ => rfl
    | append_singleton before rule ih =>
      rintro ⟨after,hrules⟩
      have hsplit : core.compiled.rules = before ++ rule :: after := by
        rw [← hrules, List.append_assoc]
        rfl
      have hbefore := ih ⟨rule::after,hsplit.symm⟩
      rw [stateAfter_append, expected_append]
      have hkeep := @sameValues_keepRule core _ _ hbefore rule
      rcases @applyRule_values core ref (core.stateAfter ref row before) rule
        with ⟨-,happly,hsame⟩ | ⟨w,-,-,happly,hsame⟩ | ⟨w,-,hiff,happly,hsame⟩
      · rw [happly]
        rwa [hsame] at hkeep
      · rw [happly]
        rwa [hsame] at hkeep
      · rw [happly]
        rw [hsame] at hkeep
        have hstop := (hiff w).mpr rfl
        rw [read_congr hbefore] at hstop
        have hfield := h before rule after hsplit w hstop
        intro other
        rw [← hkeep other, Dict.get?_set]
        by_cases he : rule.field = other
        · subst he
          rw [if_pos rfl, hbefore rule.field, hfield]
        · rw [if_neg he]

theorem other_field_kept {rules : List NormalizeRule} {field : String}
    (h : ∀ rule ∈ rules, rule.ops ≠ [] → rule.field ≠ field) :
    Dict.get? (core.stateAfter ref row rules).values field = Dict.get? row field := by
  induction rules using List.reverseRecOn with
  | nil => rfl
  | append_singleton rules rule ih =>
    rw [stateAfter_append]
    have hbefore := ih fun r hr => h r (List.mem_append_left _ hr)
    have hne := h rule (List.mem_append_right _ (List.mem_singleton_self _))
    rcases @applyRule_values core ref (core.stateAfter ref row rules) rule
      with ⟨-,happly,-⟩ | ⟨w,hops,-,happly,-⟩ | ⟨w,hops,-,happly,-⟩
    · rw [happly, hbefore]
    · rw [happly, Dict.get?_set_ne _ _ (hne hops), hbefore]
    · rw [happly, Dict.get?_set_ne _ _ (hne hops), hbefore]

theorem applyRule_errors (state : State) (rule : NormalizeRule) :
    (core.applyRule ref state rule).diagnosed.errors = [] ↔
      state.diagnosed.errors = [] ∧ (rule.onError = .error →
        ∀ v, ¬StopsAt core.registry (Fields.read state.values rule.field) rule.ops v) := by
  by_cases hops : rule.ops = []
  · simp [applyRule, hops, not_stopsAt_nil]
  · rcases @engineApply_cases core.registry 0 (Fields.read state.values rule.field)
      rule.ops with ⟨v,-,happly,hstops⟩ | ⟨v,issue,-,hsev,happly,hstops⟩
    · have hsame : (core.applyRule ref state rule).diagnosed = state.diagnosed := by
        simp [applyRule, hops, applyOps, happly, append, appendDslIssues]
      simp [hsame, hstops]
    · have hsame : (core.applyRule ref state rule).diagnosed =
          core.append ref rule.onError state.diagnosed [issue] := by
        simp [applyRule, hops, applyOps, happly]
      rw [hsame, append, appendDslIssues_errors_eq_nil_iff _ _ _ _ (by simpa using hsev)]
      simp [hstops]

theorem stateAfter_errors (rules : List NormalizeRule) :
    (core.stateAfter ref row rules).diagnosed.errors = [] ↔
      ¬∃ before rule after v, rules = before ++ rule :: after ∧ rule.onError = .error ∧
        StopsAt core.registry
          (Fields.read (core.stateAfter ref row before).values rule.field) rule.ops v := by
  induction rules using List.reverseRecOn with
  | nil => simp [stateAfter]
  | append_singleton rules last ih =>
    rw [stateAfter_append, applyRule_errors, ih]
    constructor
    · rintro ⟨hearlier,hlast⟩ ⟨before,rule,after,v,hrules,herror,hstop⟩
      rcases after.eq_nil_or_concat' with rfl | ⟨after,final,rfl⟩
      · obtain ⟨rfl,hsame⟩ := List.append_inj' hrules rfl
        obtain rfl := List.singleton_inj.mp hsame
        exact hlast herror v hstop
      · rw [← List.cons_append, ← List.append_assoc] at hrules
        obtain ⟨rfl,-⟩ := List.append_inj' hrules rfl
        exact hearlier ⟨before,rule,after,v,rfl,herror,hstop⟩
    · intro h
      refine ⟨?_,fun herror v hstop => h ⟨rules,last,[],v,rfl,herror,hstop⟩⟩
      rintro ⟨before,rule,after,v,rfl,herror,hstop⟩
      exact h ⟨before,rule,after ++ [last],v,by simp,herror,hstop⟩

theorem normalize_row (source : TransformResult Fields) :
    (core.normalize { source with row := some row }).row =
      if (core.append source.rowRef core.compiled.onError
        (core.stateAfter source.rowRef row core.compiled.rules).diagnosed
        (core.sinkIssues (core.stateAfter source.rowRef row core.compiled.rules))).errors = []
      then some (core.stateAfter source.rowRef row core.compiled.rules).values else none := rfl

/-- No row comes out exactly when a rule or the sink check reported an error. -/
theorem normalize_row_eq_none_iff (source : TransformResult Fields) :
    (core.normalize { source with row := some row }).row = none ↔
      core.Reported source.rowRef row := by
  let ruled := core.stateAfter source.rowRef row core.compiled.rules
  have herrors : (core.append source.rowRef core.compiled.onError ruled.diagnosed
      (core.sinkIssues ruled)).errors = [] ↔ ¬core.Reported source.rowRef row := by
    rw [append, appendDslIssues_errors_eq_nil_iff _ _ _ _
      (fun _ hissue => core.sinkIssues_severity hissue), stateAfter_errors, Reported, not_or,
      not_and, not_not]
  rw [normalize_row]
  by_cases h : core.Reported source.rowRef row
  · rw [if_neg fun hnil => herrors.mp hnil h]
    exact iff_of_true rfl h
  · rw [if_pos (herrors.mpr h)]
    exact iff_of_false (Option.some_ne_none _) h

/-- A failing rule leaves no trace exactly when the calls before the failing one give back
the value that stands in the row. -/
theorem leavesNoTrace_iff (core : NormalizerCore) (source : TransformResult Fields)
    (row : Fields) : core.LeavesNoTrace source row ↔ core.Undone row := by
  constructor
  · exact fun h => after_rules_iff.mp h.after_rules
  · intro h
    have hafter := (@after_rules_iff core source.rowRef row).mpr h
    refine ⟨hafter,?_,fun field hfield => other_field_kept hfield,normalize_row_eq_none_iff source⟩
    intro out hout
    rw [normalize_row] at hout
    split at hout
    · rw [← Option.some.inj hout]
      exact hafter _ (List.prefix_refl _)
    · cases hout

def trimThenFail : NormalizerCore where
  compiled :=
    { rules := [⟨"phone",[⟨"trim",[]⟩,⟨"to_int",[]⟩],.warn⟩]
      onError := .error
      validateOnlyTouchedFields := true }
  registry := [("trim",fun v _ => .ok (.str (Text.strip v.pyStr))),
    ("to_int",fun v _ => .error ⟨"ValueError","invalid literal for int(): " ++ v.pyStr⟩)]
  sinkSpec := none
  catalog := []

def phoneSource : TransformResult Fields where
  record := ⟨1,"line:1",[("phone",.str " x1 ")]⟩
  row := some [("phone",.str " x1 ")]
  rowRef := none
  matchKey := none
  metadata := []
  secretCandidates := []
  errors := []
  warnings := []

/-- `trim` succeeds and `to_int` fails with a warning: the row goes on with the trimmed text. -/
theorem failed_rule_leaves_trimmed :
    (trimThenFail.normalize phoneSource).row = some [("phone",.str "x1")] ∧
      ¬trimThenFail.LeavesNoTrace phoneSource [("phone",.str " x1 ")] := by
  have hrow : (trimThenFail.normalize phoneSource).row = some [("phone",.str "x1")] := by decide
  refine ⟨hrow,fun h => ?_⟩
  have hphone := h.result_row _ hrow "phone"
  exact absurd hphone (by decide)

end NormalizerCore
end NexusEtl
