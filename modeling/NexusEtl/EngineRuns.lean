import NexusEtl.Dsl

/-!
# Chains of operations

The engine runs a chain of calls and stops at the first that is unknown or fails. Beside
it stands the value of a whole chain; the two differ in what a failing chain hands back.
-/

set_option autoImplicit false

namespace NexusEtl
open NexusEtl.Library

section Engine
variable (registry : OperationRegistry)

def runCall (value : Value) (call : OperationCall) : Option Value :=
  (Dict.get? registry call.op).bind fun func => (func value call.args).toOption

/-- The value of a whole chain, when no call of it is unknown or fails. -/
def runCalls : Value → List OperationCall → Option Value
  | value, [] => some value
  | value, call::calls => (runCall registry value call).bind fun next => runCalls next calls

/-- Some call fails, and the calls before it give this value. -/
def StopsAt (value : Value) (calls : List OperationCall) (v : Value) : Prop :=
  ∃ done call rest, calls = done ++ call :: rest ∧ runCalls registry value done = some v ∧
    runCall registry v call = none

variable {registry}

theorem not_stopsAt_nil {value v : Value} : ¬StopsAt registry value [] v := by
  rintro ⟨done,call,rest,h,-⟩
  cases done <;> cases h

theorem stopsAt_cons {value v : Value} {call : OperationCall} {calls : List OperationCall} :
    StopsAt registry value (call::calls) v ↔
      (runCall registry value call = none ∧ v = value) ∨
        ∃ next, runCall registry value call = some next ∧ StopsAt registry next calls v := by
  constructor
  · rintro ⟨done,failing,rest,hcalls,hdone,hfail⟩
    cases done with
    | nil =>
      obtain ⟨rfl,rfl⟩ := List.cons.inj hcalls
      cases hdone
      exact Or.inl ⟨hfail,rfl⟩
    | cons first done =>
      obtain ⟨rfl,rfl⟩ := List.cons.inj hcalls
      obtain ⟨next,hnext,hrest⟩ := Option.bind_eq_some_iff.mp hdone
      exact Or.inr ⟨next,hnext,done,failing,rest,rfl,hrest,hfail⟩
  · rintro (⟨hfail,rfl⟩ | ⟨next,hnext,done,failing,rest,rfl,hdone,hfail⟩)
    · exact ⟨[],call,calls,rfl,rfl,hfail⟩
    · exact ⟨call::done,failing,rest,rfl,by simp [runCalls, hnext, hdone],hfail⟩

/-- One call of the engine: it fails with one issue and the value it got, or it goes on. -/
theorem engineApply_cons (step : Nat) (value : Value) (call : OperationCall)
    (calls : List OperationCall) :
    (runCall registry value call = none ∧
      ∃ issue : DslIssue, engineApply registry step value (call::calls) = ⟨value,[issue]⟩ ∧
        issue.severity = .error) ∨
    ∃ next, runCall registry value call = some next ∧
      engineApply registry step value (call::calls) = engineApply registry (step+1) next calls := by
  cases hget : Dict.get? registry call.op with
  | none =>
    refine Or.inl ⟨by simp [runCall, hget],?_⟩
    rw [engineApply, hget]
    exact ⟨_,rfl,rfl⟩
  | some func =>
    cases hfunc : func value call.args with
    | error exc =>
      refine Or.inl ⟨by simp [runCall, hget, hfunc, Except.toOption],?_⟩
      rw [engineApply, hget]
      simp only [hfunc]
      exact ⟨_,rfl,rfl⟩
    | ok next =>
      refine Or.inr ⟨next,by simp [runCall, hget, hfunc, Except.toOption],?_⟩
      rw [engineApply, hget]
      simp only [hfunc]

/-- The engine gives the value of the whole chain without an issue, or it stops with one
error and the value before the failing call. -/
theorem engineApply_cases (step : Nat) (value : Value) (calls : List OperationCall) :
    (∃ v, runCalls registry value calls = some v ∧
      engineApply registry step value calls = ⟨v,[]⟩ ∧ ∀ w, ¬StopsAt registry value calls w) ∨
    ∃ v issue, runCalls registry value calls = none ∧ issue.severity = .error ∧
      engineApply registry step value calls = ⟨v,[issue]⟩ ∧
        ∀ w, StopsAt registry value calls w ↔ w = v := by
  induction calls generalizing step value with
  | nil => exact Or.inl ⟨value,rfl,rfl,fun _ => not_stopsAt_nil⟩
  | cons call calls ih =>
    rcases engineApply_cons step value call calls with ⟨hfail,issue,happly,hsev⟩ | ⟨next,hnext,happly⟩
    · refine Or.inr ⟨value,issue,by simp [runCalls, hfail],hsev,happly,fun w => ?_⟩
      simp [stopsAt_cons, hfail]
    · have hruns : runCalls registry value (call::calls) = runCalls registry next calls := by
        simp [runCalls, hnext]
      have hstops (w : Value) : StopsAt registry value (call::calls) w ↔
          StopsAt registry next calls w := by
        simp [stopsAt_cons, hnext]
      rw [happly, hruns]
      simp only [hstops]
      exact ih (step+1) next

end Engine

/-! ## What a stage reports -/

theorem appendDslIssues_errors_eq_nil_iff (stage : DiagnosticStage) (catalog : ErrorCatalog)
    (ref : Option RowRef) (onError : OnError) {issues : List DslIssue}
    (h : ∀ issue ∈ issues, issue.severity = .error) (acc : Diagnosed) :
    (appendDslIssues stage catalog ref onError acc issues).errors = [] ↔
      acc.errors = [] ∧ (onError = .error → issues = []) := by
  induction issues generalizing acc with
  | nil => simp [appendDslIssues]
  | cons issue issues ih =>
    have hsev := h issue List.mem_cons_self
    rw [appendDslIssues, List.foldl_cons, ← appendDslIssues,
      ih fun other hother => h other (List.mem_cons_of_mem _ hother)]
    cases onError with
    | warn => simp [appendDslIssue]
    | error => simp [appendDslIssue, hsev]

/-- Everything that one has collected, the other has too. -/
def Diagnosed.Within (a b : Diagnosed) : Prop := a.errors ⊆ b.errors ∧ a.warnings ⊆ b.warnings

theorem Diagnosed.Within.refl (a : Diagnosed) : a.Within a :=
  ⟨List.Subset.refl _,List.Subset.refl _⟩

theorem Diagnosed.Within.trans {a b c : Diagnosed} (hab : a.Within b) (hbc : b.Within c) :
    a.Within c := ⟨List.Subset.trans hab.1 hbc.1,List.Subset.trans hab.2 hbc.2⟩

/-- Issues are appended to what was collected before, whatever that is. -/
theorem appendDslIssues_append (stage : DiagnosticStage) (catalog : ErrorCatalog)
    (ref : Option RowRef) (onError : OnError) (acc : Diagnosed) (issues : List DslIssue) :
    appendDslIssues stage catalog ref onError acc issues =
      ⟨acc.errors ++ (appendDslIssues stage catalog ref onError ⟨[],[]⟩ issues).errors,
        acc.warnings ++ (appendDslIssues stage catalog ref onError ⟨[],[]⟩ issues).warnings⟩ := by
  induction issues using List.reverseRecOn with
  | nil => simp [appendDslIssues]
  | append_singleton issues issue ih =>
    simp only [appendDslIssues, List.foldl_append, List.foldl_cons, List.foldl_nil] at ih ⊢
    rw [ih]
    unfold appendDslIssue
    split <;> simp

theorem appendDslIssues_within (stage : DiagnosticStage) (catalog : ErrorCatalog)
    (ref : Option RowRef) (onError : OnError) (acc : Diagnosed) (issues : List DslIssue) :
    acc.Within (appendDslIssues stage catalog ref onError acc issues) ∧
      (appendDslIssues stage catalog ref onError ⟨[],[]⟩ issues).Within
        (appendDslIssues stage catalog ref onError acc issues) := by
  rw [appendDslIssues_append stage catalog ref onError acc issues]
  exact ⟨⟨List.subset_append_left _ _,List.subset_append_left _ _⟩,
    ⟨List.subset_append_right _ _,List.subset_append_right _ _⟩⟩

theorem validateField_severity {row : Fields} {field : SinkFieldSpec} {checkTypes : Bool}
    {issue : DslIssue} (h : issue ∈ validateField row field checkTypes) :
    issue.severity = .error := by
  simp only [validateField] at h
  split at h
  · rw [List.mem_singleton.mp h]
    rfl
  · split at h
    · cases h
    · rw [List.mem_singleton.mp h]
      rfl

end NexusEtl
