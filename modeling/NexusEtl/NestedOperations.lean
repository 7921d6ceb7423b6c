import NexusEtl.Library.Fallible
import NexusEtl.Dsl

/-!
# Operations on every element

`map_each` runs a chain that stands in its arguments on every element of a value. Its
engine always has the core operations, and the first issue of an element is raised with
its text. An issue here keeps the issue that it was raised for; what the operations
other than `map_each` compute is left open.
-/

set_option autoImplicit false

namespace NexusEtl
open NexusEtl.Library

/-! ## Issues of a chain -/

inductive ChainIssue
  | unknown (op : String) (step : Nat)
  | failed (call : OperationCall) (step : Nat) (exc : PyException)
  | nested (call : OperationCall) (step : Nat) (issue : ChainIssue)

/-- Why an operation raises: on its own or for an issue of the chain that it runs. -/
inductive OperationFault
  | raised (exc : PyException)
  | nested (issue : ChainIssue)

namespace ChainIssue

def message : ChainIssue → String
  | unknown op _ => "Unknown operation '" ++ op ++ "'"
  | failed call _ exc => "Operation '" ++ call.op ++ "' failed: " ++ exc.text
  | nested call _ issue => "Operation '" ++ call.op ++ "' failed: " ++ issue.message

/-- The chain, or the nested chain that failed, came to an unknown operation. -/
def UnknownOperation : ChainIssue → Prop
  | unknown _ _ => True
  | failed _ _ _ => False
  | nested _ _ issue => issue.UnknownOperation

def failedIssue (call : OperationCall) (step : Nat) (error : String) : DslIssue :=
  { code := "DSL_OP_FAILED", message := "Operation '" ++ call.op ++ "' failed: " ++ error
    field := none
    details := some [("op",.str call.op),("args",.dict call.args),("step",.int step),
      ("error",.str error)]
    severity := .error }

def toDslIssue : ChainIssue → DslIssue
  | unknown op step =>
    { code := "DSL_OP_UNKNOWN", message := "Unknown operation '" ++ op ++ "'", field := none
      details := some [("op",.str op),("step",.int step)], severity := .error }
  | failed call step exc => failedIssue call step exc.text
  | nested call step issue => failedIssue call step issue.message

end ChainIssue

namespace OperationFault

/-- `raise ValueError(first_issue.message)` -/
def exception : OperationFault → PyException
  | raised exc => exc
  | nested issue => ⟨"ValueError",issue.message⟩

def issue (call : OperationCall) (step : Nat) : OperationFault → ChainIssue
  | raised exc => .failed call step exc
  | nested issue => .nested call step issue

theorem toDslIssue_issue (call : OperationCall) (step : Nat) (fault : OperationFault) :
    (fault.issue call step).toDslIssue =
      ChainIssue.failedIssue call step fault.exception.text := by
  cases fault with
  | raised exc => rfl
  | nested issue => rfl

end OperationFault

/-! ## Operations and their registry -/

inductive DslOperation
  | mapEach
  | func (run : OperationFunc)

abbrev Operations := Dict String DslOperation

namespace Operations

def register (ops : Operations) (name : String) (operation : DslOperation) (allowOverride : Bool) :
    Except PyException Operations :=
  if !allowOverride && Dict.contains ops name then
    .error ⟨"ValueError","Operation '" ++ name ++ "' already registered"⟩
  else .ok (Dict.set ops name operation)

def coreNames : List String :=
  ["trim","lower","upper","title","capitalize","upper_first_preserve_rest","transliterate",
    "to_int","to_float","to_bool","parse_bool","to_string","int_if_digits","uuid",
    "default_uuid","default_prefixed_uuid","default_password","copy","const","coalesce",
    "pick_when_blank","concat","build_delimited_key","first","last","at","substring",
    "compact","unique","count","map_each","extract_patterns","split","split_name",
    "regex_extract","contains_non_ascii","is_blank","filter_regex","reject_regex",
    "regex_replace","digits_only","strip_non_alnum","random_digits","format_mask",
    "parse_kv_pairs","map_dict","build_link_keys","equals_path"]

end Operations

/-- The functions of the core operations and the text of a rejected nested call. -/
structure CoreOps where
  functions : String → OperationFunc
  validationText : Value → String

def CoreOps.operation (core : CoreOps) (name : String) : DslOperation :=
  if name = "map_each" then .mapEach else .func (core.functions name)

/-- `register_core_ops` on an empty registry. -/
def CoreOps.registry (core : CoreOps) : Operations :=
  Operations.coreNames.map fun name => (name,core.operation name)

theorem CoreOps.get?_registry (core : CoreOps) (name : String) :
    Dict.get? core.registry name = none ↔ name ∉ Operations.coreNames := by
  have hkeys : Dict.keys core.registry = Operations.coreNames := by
    rw [CoreOps.registry, Dict.keys, List.map_map]
    exact List.map_id _
  rw [← hkeys, Dict.mem_keys_iff, Option.not_isSome_iff_eq_none]

/-! ## The engine -/

namespace Engine

abbrev MapEach := Value → Fields → Except OperationFault Value

def perform (mapEach : MapEach) : DslOperation → MapEach
  | .mapEach, value, args => mapEach value args
  | .func run, value, args => (run value args).mapError .raised

/-- `TransformationEngine.apply` -/
def applyCalls (mapEach : MapEach) (ops : Operations) :
    Nat → Value → List OperationCall → Value × Option ChainIssue
  | _, current, [] => (current,none)
  | step, current, call::calls =>
    match Dict.get? ops call.op with
    | none => (current,some (.unknown call.op step))
    | some operation =>
      match perform mapEach operation current call.args with
      | .ok next => applyCalls mapEach ops (step+1) next calls
      | .error fault => (current,some (fault.issue call step))

def asSequence : Value → List Value
  | .null => []
  | .list items => items
  | value => [value]

def typeError (text : String) : PyException := ⟨"TypeError","op_map_each() " ++ text⟩

/-- `op_map_each(value, *, ops)` called with `**args`. -/
def opsArgument (args : Fields) : Except PyException Value :=
  match args.find? fun arg => arg.1 ≠ "ops" with
  | some (name,_) =>
    if name = "value" then .error (typeError "got multiple values for argument 'value'")
    else .error (typeError ("got an unexpected keyword argument '" ++ name ++ "'"))
  | none =>
    match Dict.get? args "ops" with
    | some ops => .ok ops
    | none => .error (typeError "missing 1 required keyword-only argument: 'ops'")

/-- `OperationCall.model_validate`; other fields are forbidden. -/
def validateCall (core : CoreOps) (item : Value) : Except PyException OperationCall :=
  match item with
  | .dict fields =>
    match Dict.get? fields "op", (Dict.get? fields "args").getD (.dict []) with
    | some (.str op), .dict args =>
      if fields.all fun field => field.1 = "op" || field.1 = "args" then .ok ⟨op,args⟩
      else .error ⟨"ValidationError",core.validationText item⟩
    | _, _ => .error ⟨"ValidationError",core.validationText item⟩
  | _ => .error ⟨"ValidationError",core.validationText item⟩

def coerceNestedOps (core : CoreOps) : Value → Except PyException (List OperationCall)
  | .list items => items.mapM (validateCall core)
  | _ => .error ⟨"ValueError","ops must be a list"⟩

/-- The nested calls; `None` is returned before they are looked at. -/
def nestedCalls (core : CoreOps) (value : Value) (args : Fields) :
    Except PyException (Option (List OperationCall)) :=
  match opsArgument args with
  | .error exc => .error exc
  | .ok ops => if value.isNull then .ok none else (coerceNestedOps core ops).map some

def mapItems (chain : Value → Value × Option ChainIssue) :
    List Value → Except OperationFault (List Value)
  | [] => .ok []
  | item::items =>
    match chain item with
    | (_,some issue) => .error (.nested issue)
    | (value,none) => (mapItems chain items).map (value :: ·)

def recursionError : PyException := ⟨"RecursionError","maximum recursion depth exceeded"⟩

/-- `op_map_each`, where the stack holds so many engines. -/
def opMapEach (core : CoreOps) : Nat → MapEach
  | 0, _, _ => .error (.raised recursionError)
  | depth+1, value, args =>
    match nestedCalls core value args with
    | .error exc => .error (.raised exc)
    | .ok none => .ok .null
    | .ok (some calls) =>
      (mapItems (fun item => applyCalls (opMapEach core depth) core.registry 0 item calls)
        (asSequence value)).map .list

def apply (core : CoreOps) (depth : Nat) (ops : Operations) (value : Value)
    (calls : List OperationCall) : Value × Option ChainIssue :=
  applyCalls (opMapEach core depth) ops 0 value calls

/-! The stages run the functions of a registry, with the exceptions that they raise. -/

def functions (core : CoreOps) (depth : Nat) (ops : Operations) : OperationRegistry :=
  ops.map fun entry => (entry.1,fun value args =>
    (perform (opMapEach core depth) entry.2 value args).mapError OperationFault.exception)

theorem get?_functions (core : CoreOps) (depth : Nat) (ops : Operations) (name : String) :
    Dict.get? (functions core depth ops) name = (Dict.get? ops name).map fun operation =>
      fun value args =>
        (perform (opMapEach core depth) operation value args).mapError
          OperationFault.exception := by
  induction ops with
  | nil => rfl
  | cons entry ops ih =>
    obtain ⟨key,operation⟩ := entry
    rw [functions, List.map_cons, Dict.get?, Dict.get?]
    by_cases h : key = name
    · rw [if_pos h, if_pos h]
      rfl
    · rw [if_neg h, if_neg h]
      exact ih

theorem engineApply_functions (core : CoreOps) (depth : Nat) (ops : Operations) (step : Nat)
    (value : Value) (calls : List OperationCall) :
    engineApply (functions core depth ops) step value calls =
      ⟨(applyCalls (opMapEach core depth) ops step value calls).1,
        ((applyCalls (opMapEach core depth) ops step value calls).2.map
          ChainIssue.toDslIssue).toList⟩ := by
  induction calls generalizing step value with
  | nil => rfl
  | cons call calls ih =>
    rw [engineApply, applyCalls, get?_functions]
    cases Dict.get? ops call.op with
    | none => rfl
    | some operation =>
      simp only [Option.map_some]
      cases hrun : perform (opMapEach core depth) operation value call.args with
      | ok next =>
        simp only [Except.mapError]
        exact ih (step+1) next
      | error fault =>
        simp only [Except.mapError, Option.map_some, Option.toList_some,
          OperationFault.toDslIssue_issue]
        rfl

/-! ## Names that a run looks up -/

/-- The names that a chain looks up in its own registry. -/
def ownNames (mapEach : MapEach) (ops : Operations) : Value → List OperationCall → List String
  | _, [] => []
  | current, call::calls =>
    call.op :: match Dict.get? ops call.op with
      | none => []
      | some operation =>
        match perform mapEach operation current call.args with
        | .ok next => ownNames mapEach ops next calls
        | .error _ => []

def namesWithin (inner : Value → Fields → List String) : DslOperation → Value → Fields → List String
  | .mapEach, value, args => inner value args
  | .func _, _, _ => []

/-- The names that the nested chains of a chain look up. -/
def nestedNames (mapEach : MapEach) (inner : Value → Fields → List String) (ops : Operations) :
    Value → List OperationCall → List String
  | _, [] => []
  | current, call::calls =>
    match Dict.get? ops call.op with
    | none => []
    | some operation => namesWithin inner operation current call.args ++
        match perform mapEach operation current call.args with
        | .ok next => nestedNames mapEach inner ops next calls
        | .error _ => []

/-- The elements up to the first with an issue. -/
def itemNames (chain : Value → Value × Option ChainIssue) (names : Value → List String) :
    List Value → List String
  | [] => []
  | item::items => names item ++
      match (chain item).2 with
      | none => itemNames chain names items
      | some _ => []

/-- The names that `map_each` looks up at any depth. -/
def mapEachNames (core : CoreOps) : Nat → Value → Fields → List String
  | 0, _, _ => []
  | depth+1, value, args =>
    match nestedCalls core value args with
    | .ok (some calls) =>
      itemNames (fun item => applyCalls (opMapEach core depth) core.registry 0 item calls)
        (fun item => ownNames (opMapEach core depth) core.registry item calls ++
          nestedNames (opMapEach core depth) (mapEachNames core depth) core.registry item calls)
        (asSequence value)
    | _ => []

/-- An issue of an unknown operation, at whatever depth. -/
def EndsUnknown (issue : Option ChainIssue) : Prop := ∃ i, issue = some i ∧ i.UnknownOperation

/-- `map_each` fails for an unknown operation exactly when it looks up a name that is none
of the core operations. -/
def FailsByName (mapEach : MapEach) (inner : Value → Fields → List String) : Prop :=
  ∀ value args, (∃ issue, mapEach value args = .error (.nested issue) ∧ issue.UnknownOperation) ↔
    ∃ name ∈ inner value args, name ∉ Operations.coreNames

theorem not_endsUnknown_none : ¬ EndsUnknown none := by
  rintro ⟨_,h,_⟩
  cases h

theorem endsUnknown_some (issue : ChainIssue) :
    EndsUnknown (some issue) ↔ issue.UnknownOperation := by
  constructor
  · rintro ⟨_,hsome,h⟩
    exact Option.some.inj hsome ▸ h
  · exact fun h => ⟨issue,rfl,h⟩

variable {mapEach : MapEach} {inner : Value → Fields → List String}

/-- Only `map_each` fails for an issue of another chain. -/
theorem perform_nested (h : FailsByName mapEach inner) (operation : DslOperation) (value : Value)
    (args : Fields) :
    (∃ issue, perform mapEach operation value args = .error (.nested issue) ∧
        issue.UnknownOperation) ↔
      ∃ name ∈ namesWithin inner operation value args, name ∉ Operations.coreNames := by
  cases operation with
  | mapEach => exact h value args
  | func run =>
    refine iff_of_false ?_ (by simp [namesWithin])
    rintro ⟨issue,hrun,_⟩
    rw [perform] at hrun
    cases hresult : run value args with
    | ok next => rw [hresult] at hrun; cases hrun
    | error exc => rw [hresult] at hrun; cases hrun

theorem endsUnknown_issue (call : OperationCall) (step : Nat) (fault : OperationFault) :
    EndsUnknown (some (fault.issue call step)) ↔
      ∃ issue, fault = .nested issue ∧ issue.UnknownOperation := by
  rw [endsUnknown_some]
  cases fault with
  | raised exc => simp [OperationFault.issue, ChainIssue.UnknownOperation]
  | nested issue => simp [OperationFault.issue, ChainIssue.UnknownOperation]

/-- A chain ends so at the first name that its registry lacks or in a nested chain. -/
theorem applyCalls_endsUnknown (h : FailsByName mapEach inner) (ops : Operations) (step : Nat)
    (value : Value) (calls : List OperationCall) :
    EndsUnknown (applyCalls mapEach ops step value calls).2 ↔
      (∃ name ∈ ownNames mapEach ops value calls, Dict.get? ops name = none) ∨
        ∃ name ∈ nestedNames mapEach inner ops value calls, name ∉ Operations.coreNames := by
  induction calls generalizing step value with
  | nil => simp [applyCalls, ownNames, nestedNames, not_endsUnknown_none]
  | cons call calls ih =>
    rw [applyCalls, ownNames, nestedNames]
    cases hop : Dict.get? ops call.op with
    | none =>
      simp only [endsUnknown_some, ChainIssue.UnknownOperation, List.mem_singleton,
        exists_eq_left, hop, true_or]
    | some operation =>
      have hwithin := perform_nested h operation value call.args
      dsimp only
      cases hrun : perform mapEach operation value call.args with
      | ok next =>
        have hnone : ¬ ∃ name ∈ namesWithin inner operation value call.args,
            name ∉ Operations.coreNames := by
          rw [← hwithin, hrun]
          rintro ⟨_,h,_⟩
          cases h
        simp only [List.mem_cons, List.mem_append, or_and_right, exists_or, exists_eq_left, hop,
          reduceCtorEq, false_or, hnone]
        exact ih (step+1) next
      | error fault =>
        rw [hrun] at hwithin
        simp only [Except.error.injEq] at hwithin
        simp only [List.mem_singleton, exists_eq_left, hop, reduceCtorEq, false_or,
          List.append_nil, ← hwithin]
        exact endsUnknown_issue call step fault

/-- The elements are run until one has an issue. -/
theorem mapItems_nested {chain : Value → Value × Option ChainIssue}
    {names : Value → List String}
    (h : ∀ item, EndsUnknown (chain item).2 ↔
      ∃ name ∈ names item, name ∉ Operations.coreNames) (items : List Value) :
    (∃ issue, mapItems chain items = .error (.nested issue) ∧ issue.UnknownOperation) ↔
      ∃ name ∈ itemNames chain names items, name ∉ Operations.coreNames := by
  induction items with
  | nil => simp [mapItems, itemNames]
  | cons item items ih =>
    have hitem := h item
    rw [mapItems, itemNames]
    cases hchain : chain item with | mk value issue
    rw [hchain] at hitem
    cases issue with
    | none =>
      have hnone := mt hitem.mpr not_endsUnknown_none
      simp only [List.mem_append, or_and_right, exists_or, hnone, false_or, ← ih]
      cases mapItems chain items with
      | ok values => simp [Except.map]
      | error fault => simp [Except.map]
    | some issue =>
      simp only [List.append_nil, ← hitem, endsUnknown_some, Except.error.injEq,
        OperationFault.nested.injEq, exists_eq_left']

theorem opMapEach_failsByName (core : CoreOps) (depth : Nat) :
    FailsByName (opMapEach core depth) (mapEachNames core depth) := by
  induction depth with
  | zero => intro value args; simp [opMapEach, mapEachNames]
  | succ depth ih =>
    intro value args
    rw [opMapEach, mapEachNames]
    cases nestedCalls core value args with
    | error exc => simp
    | ok nested =>
      cases nested with
      | none => simp
      | some calls =>
        simp only
        rw [← mapItems_nested fun item => ?_]
        · cases mapItems _ (asSequence value) with
          | ok values => simp [Except.map]
          | error fault => simp [Except.map]
        · rw [applyCalls_endsUnknown ih]
          simp only [core.get?_registry, List.mem_append, or_and_right, exists_or]

theorem mem_of_mem_ownNames {ops : Operations} {value : Value} {calls : List OperationCall}
    {name : String} (h : name ∈ ownNames mapEach ops value calls) :
    ∃ call ∈ calls, call.op = name := by
  induction calls generalizing value with
  | nil => cases h
  | cons call calls ih =>
    rw [ownNames, List.mem_cons] at h
    rcases h with rfl | h
    · exact ⟨call,List.mem_cons_self,rfl⟩
    · split at h
      · cases h
      · split at h
        · obtain ⟨found,hfound,hname⟩ := ih h
          exact ⟨found,List.mem_cons_of_mem _ hfound,hname⟩
        · cases h

/-- With the names of a chain registered, it ends in an unknown operation exactly when a
nested chain looks up a name that is none of the core operations. -/
theorem apply_endsUnknown (core : CoreOps) (depth : Nat) {ops : Operations} (value : Value)
    {calls : List OperationCall} (hknown : ∀ call ∈ calls, Dict.get? ops call.op ≠ none) :
    EndsUnknown (apply core depth ops value calls).2 ↔
      ∃ name ∈ nestedNames (opMapEach core depth) (mapEachNames core depth) ops value calls,
        name ∉ Operations.coreNames := by
  rw [apply, applyCalls_endsUnknown (opMapEach_failsByName core depth)]
  refine or_iff_right ?_
  rintro ⟨name,hname,hnone⟩
  obtain ⟨call,hcall,rfl⟩ := mem_of_mem_ownNames hname
  exact hknown call hcall hnone

end Engine

end NexusEtl
