import NexusEtl.Diagnostics
import Mathlib.Data.List.Sort

/-!
# The target specification and its kernel

A target is declared by its capabilities, the rules that classify a fault, the
rules that answer a fault with a retry directive and perhaps a mutation, its
redaction mode and its operations. The kernel reads these rules; it never sees
the transport. The validators of the declaration are fields of the structures.
-/

set_option autoImplicit false

namespace NexusEtl
open NexusEtl.Library

inductive TargetFaultKind
  | spec | auth | permission | data | notFound | conflict | throttle | transient | unknown
  deriving DecidableEq, Repr

inductive TargetCapability
  | check | execute | readPaged
  deriving DecidableEq, Repr

inductive RetryDirective
  | noRetry | retryBackoff | retryAfter | escalate
  deriving DecidableEq, Repr

inductive BodyMode
  | none | keysOnly | truncated
  deriving DecidableEq, Repr

structure FaultRule where
  faultKind : TargetFaultKind
  matchStatus : Option Int
  matchStatusRange : Option (Int × Int)
  matchErrorCode : Option String
  hasMatcher : (matchStatus.isSome || matchStatusRange.isSome || matchErrorCode.isSome) = true
  oneStatus : (matchStatus.isSome && matchStatusRange.isSome) = false
  ordered : (matchStatusRange.all fun r => decide (r.1 ≤ r.2)) = true
  deriving DecidableEq, Repr

structure RetryRule where
  directive : RetryDirective
  matchFault : Option TargetFaultKind
  matchStatus : Option Int
  matchReason : Option String
  mutation : Option String
  hasMatcher : (matchFault.isSome || matchStatus.isSome || matchReason.isSome) = true
  reasonNormal : (matchReason.all fun r => Text.lower (Text.strip r) == r && r != "") = true
  mutationNormal : (mutation.all fun m => Text.strip m == m && m != "") = true
  deriving DecidableEq, Repr

/-- A path template is split at its parameters. -/
inductive PathPart
  | text (s : String)
  | param (name : String)
  deriving DecidableEq, Repr

structure OperationSpec where
  operationAlias : String
  expectedStatuses : List Int
  method : String
  pathTemplate : List PathPart
  queryDefaults : Fields
  headerDefaults : Dict String String
  deriving DecidableEq, Repr

structure TargetSpec where
  targetType : String
  capabilities : List TargetCapability
  faultRules : List FaultRule
  retryRules : List RetryRule
  maxAttempts : Nat
  bodyMode : BodyMode
  healthAlias : String
  operations : Dict String OperationSpec
  checked : .check ∈ capabilities
  healthDeclared : Dict.contains operations healthAlias = true
  aliasKeys : (operations.all fun o => o.1 == o.2.operationAlias) = true
  deriving DecidableEq, Repr

namespace Sanitize

def sensitiveFieldKeys : List String := ["password", "token", "authorization", "api_key", "secret"]

def isSensitive (key : String) : Bool := sensitiveFieldKeys.contains (Text.lower key)

def mask (v : Value) : Value := if v.isNull then .null else .str "***"

mutual
def maskSecretsInObject : Value → Value
  | .dict fields => .dict (maskFields fields)
  | .list items => .list (maskItems items)
  | v => v

def maskFields : List (String × Value) → List (String × Value)
  | [] => []
  | (k,v)::kvs => (k,if isSensitive k then mask v else maskSecretsInObject v)::maskFields kvs

def maskItems : List Value → List Value
  | [] => []
  | v::vs => maskSecretsInObject v::maskItems vs
end

def truncateText (s : String) : String :=
  if s.toList.length ≤ 500 then s else String.ofList (s.toList.take 497) ++ "..."

/-- A masked dictionary has the entries of the original, each masked by its key. -/
theorem read_maskFields (fields : Fields) (key : String) :
    Fields.read (maskFields fields) key =
      if isSensitive key then mask (Fields.read fields key)
      else maskSecretsInObject (Fields.read fields key) := by
  induction fields with
  | nil =>
    have hmask : mask Value.null = Value.null := rfl
    simp [maskFields, Fields.read, hmask, maskSecretsInObject]
  | cons kv kvs ih =>
    obtain ⟨k,v⟩ := kv
    by_cases hk : k = key
    · subst hk
      by_cases hs : isSensitive k = true <;> simp [maskFields, Fields.read, Dict.get?, hs]
    · have hrest : Fields.read (maskFields ((k,v)::kvs)) key = Fields.read (maskFields kvs) key := by
        simp [maskFields, Fields.read, Dict.get?, hk]
      have hread : Fields.read ((k,v)::kvs) key = Fields.read kvs key := by
        simp [Fields.read, Dict.get?, hk]
      rw [hrest, ih, hread]

end Sanitize

structure ResolvedRetryAction where
  directive : RetryDirective
  mutation : Option String
  deriving DecidableEq, Repr

def RetryRule.applies (rule : RetryRule) (kind : TargetFaultKind) (status : Option Int)
    (reason : Option String) : Bool :=
  (rule.matchFault.all fun k => k == kind) && (rule.matchStatus.all fun s => some s == status) &&
    (rule.matchReason.all fun r => some r == reason)

namespace TargetSpec

variable (spec : TargetSpec)

def faultByCode : Dict String TargetFaultKind :=
  Dict.update [] (spec.faultRules.filterMap fun r => r.matchErrorCode.map fun c => (c,r.faultKind))

def faultByStatus : Dict Int TargetFaultKind :=
  Dict.update [] (spec.faultRules.filterMap fun r => r.matchStatus.map fun s => (s,r.faultKind))

def faultByRange (status : Int) : Option TargetFaultKind :=
  spec.faultRules.findSome? fun r => r.matchStatusRange.bind fun (low,high) =>
    if low ≤ status ∧ status ≤ high then some r.faultKind else none

def classifyStatus (status : Option Int) : TargetFaultKind :=
  (status.bind fun s => (Dict.get? spec.faultByStatus s).or (spec.faultByRange s)).getD .unknown

/-- The code of the driver decides before the status does. -/
def classifyFault (status : Option Int) (errorCode : Option String) : TargetFaultKind :=
  match (errorCode.filter fun c => c != "").bind (Dict.get? spec.faultByCode) with
  | some kind => kind
  | none => spec.classifyStatus status

def resolveRetryAction (kind : TargetFaultKind) (status : Option Int) (errorReason : Option String) :
    ResolvedRetryAction :=
  let reason := errorReason.map fun r => Text.lower (Text.strip r)
  match spec.retryRules.find? fun rule => rule.applies kind status reason with
  | some rule => ⟨rule.directive,rule.mutation⟩
  | none => ⟨.noRetry,none⟩

def safeBody (body : Value) : Value :=
  match spec.bodyMode, body with
  | .none, _ => .null
  | _, .str s => .str (Sanitize.truncateText s)
  | .keysOnly, .dict fields => .list ((Dict.keys fields).map .str)
  | _, v => Sanitize.maskSecretsInObject v

def getCompiledOperation (name : String) : Except PyException OperationSpec :=
  match Dict.get? spec.operations name with
  | some op => .ok op
  | none => .error ⟨"ValueError","unknown operation alias: " ++ name⟩

def capabilityName : TargetCapability → String
  | .check => "check"
  | .execute => "execute"
  | .readPaged => "read_paged"

def requireCapability (capability : TargetCapability) : Except PyException Unit :=
  if capability ∈ spec.capabilities then .ok ()
  else .error ⟨"ValueError","target capability " ++ Value.strRepr (capabilityName capability) ++
    " is not supported by target_type=" ++ Value.strRepr spec.targetType⟩

end TargetSpec

def systemErrorCode : TargetFaultKind → SystemErrorCode
  | .auth => .authUnauthorized
  | .permission => .authForbidden
  | .data | .notFound => .dataInvalid
  | .conflict => .conflict
  | .throttle | .transient => .infraUnavailable
  | .spec | .unknown => .internalError

end NexusEtl
