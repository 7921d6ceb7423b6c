import NexusEtl.TargetKernel
import Mathlib.Algebra.Order.Ring.Unbundled.Rat

/-!
# The target gateway

One driver call is a request that the target answers; the gateway owns the
retries. A fault is answered by the rules of the specification: the request may
be sent again, perhaps changed by a registered mutation, until the budget of
retries is spent. The target is a sequence of answers, one for each request that
reaches it; random identifiers are a sequence of texts.
-/

set_option autoImplicit false

namespace NexusEtl
open NexusEtl.Library

/-- An intent for the target; its alias is stripped and not empty. -/
structure RequestSpec where
  operationAlias : String
  payload : Value
  operationParams : Option Fields
  trimmed : Text.strip operationAlias = operationAlias
  named : operationAlias ≠ ""
  deriving DecidableEq, Repr

structure HttpRequest where
  method : String
  path : String
  query : Fields
  headers : Dict String String
  json : Value
  expectedStatuses : List Int
  deriving DecidableEq, Repr

inductive ResponsePayloadFormat
  | none | json | text | bytes | rows | object
  deriving DecidableEq, Repr

/-- A number of seconds to wait; a header may name an infinite one or no number. -/
inductive Delay
  | seconds (q : Rat)
  | infinite
  | notANumber
  deriving DecidableEq, Repr

structure DriverResponse where
  ok : Bool
  answerCode : Value
  payload : Value
  contentPreview : Option String
  payloadFormat : ResponsePayloadFormat
  errorReason : Option String
  retryAfterS : Option Delay
  deriving DecidableEq, Repr

structure DriverError where
  message : String
  code : String
  answerCode : Value
  contentPreview : Option String
  details : Fields
  retryAfterS : Option Delay
  errorReason : Option String
  deriving DecidableEq, Repr

/-- What a driver call ends in: a response, an error of the transport, or any other exception. -/
inductive Answer
  | response (resp : DriverResponse)
  | driverError (exc : DriverError)
  | raised (exc : PyException)
  deriving DecidableEq, Repr

def Answer.ok : Answer → Bool
  | .response resp => resp.ok
  | _ => false

structure ExecutionResult where
  ok : Bool
  answerCode : Value
  responsePayload : Value
  responseFormat : ResponsePayloadFormat
  errorCode : Option SystemErrorCode
  errorMessage : Option String
  errorReason : Option String
  errorDetails : Option Fields
  deriving DecidableEq, Repr

def PyException.isValueError (exc : PyException) : Bool := exc.name == "ValueError"

namespace OperationSpec

variable (op : OperationSpec)

def pathParams : List String :=
  op.pathTemplate.filterMap fun
    | .param name => some name
    | .text _ => none

/-- Whether the path of the operation carries the `target_id`. -/
def addressed : Bool := op.pathParams.contains "target_id"

def renderPath (params : Fields) : String :=
  String.join <| op.pathTemplate.map fun
    | .param name => (Fields.read params name).pyStr
    | .text s => s

/-- The request of an operation; every parameter of the path has to be given. -/
def build (params : Option Fields) (payload : Value) : Except PyException HttpRequest :=
  let given := params.getD []
  let missing := op.pathParams.filter fun name => !Dict.contains given name
  if missing = [] then
    .ok { method := op.method, path := op.renderPath given, query := op.queryDefaults
          headers := op.headerDefaults, json := payload, expectedStatuses := op.expectedStatuses }
  else .error ⟨"ValueError","operation " ++ Value.strRepr op.operationAlias ++
    " missing path params: " ++ Text.join ", " (missing.mergeSort fun a b => decide (a ≤ b))⟩

theorem build_addressed {params : Option Fields} {payload : Value} {request : HttpRequest}
    (h : op.build params payload = .ok request) (ha : op.addressed = true) :
    ∃ v, Dict.get? (params.getD []) "target_id" = some v := by
  unfold build at h
  dsimp only at h
  split at h
  · rename_i hmissing
    have hgiven := (List.filter_eq_nil_iff.mp hmissing) "target_id" (by simpa [addressed] using ha)
    exact Option.ne_none_iff_exists'.mp (by simpa [Dict.contains] using hgiven)
  · cases h

end OperationSpec

/-- The faults of one driver call: its kind, its retry action and the result if it is final. -/
structure Fault where
  kind : TargetFaultKind
  action : ResolvedRetryAction
  retryAfterS : Option Delay
  result : ExecutionResult
  deriving DecidableEq, Repr

namespace TargetSpec

variable (spec : TargetSpec)

def asStatusCode : Value → Option Int
  | .int n => some n
  | _ => none

def formatAnswerFailure (answerCode : Value) : String :=
  if answerCode.isNull then "target operation failed" else "target answer " ++ answerCode.pyStr

def withDetail (details : Option Fields) (key : String) (v : Value) : Option Fields :=
  some (Dict.set (details.getD []) key v)

def withReason (details : Option Fields) (reason : Option String) : Option Fields :=
  match reason with
  | some r => withDetail details "error_reason" (.str r)
  | none => details

def markEscalated (action : ResolvedRetryAction) (details : Option Fields) : Option Fields :=
  if action.directive = .escalate then withDetail details "escalated" (.bool true) else details

def isCollection : Value → Bool
  | .dict _ | .list _ => true
  | _ => false

def buildErrorDetails (payload : Value) (contentPreview : Option String) : Option Fields :=
  let details := (contentPreview.filter fun p => p != "").map fun p =>
    [("content_preview",Value.str (Sanitize.truncateText p))]
  if isCollection payload then withDetail details "response_payload" (spec.safeBody payload)
  else details

def buildRespDetails (resp : DriverResponse) (action : ResolvedRetryAction) : Option Fields :=
  markEscalated action <|
    withReason (spec.buildErrorDetails resp.payload resp.contentPreview) resp.errorReason

def safeDetails (details : Fields) : Option Fields :=
  if details = [] then none
  else match spec.safeBody (.dict details) with
    | .dict safe => some safe
    | _ => none

def buildExcDetails (exc : DriverError) (action : ResolvedRetryAction) : Option Fields :=
  let details := spec.safeDetails exc.details
  let preview := match exc.contentPreview.filter fun p => p != "" with
    | some p => Value.str p
    | none => Fields.read (details.getD []) "content_preview"
  let details := if preview.isNull then details
    else withDetail details "content_preview" (.str (Sanitize.truncateText preview.pyStr))
  markEscalated action (withReason details exc.errorReason)

def executeSuccess (resp : DriverResponse) : ExecutionResult :=
  { ok := true, answerCode := resp.answerCode, responsePayload := spec.safeBody resp.payload
    responseFormat := resp.payloadFormat, errorCode := none, errorMessage := none
    errorReason := none, errorDetails := none }

def fromDriverError (exc : DriverError) (kind : TargetFaultKind) (details : Option Fields) :
    ExecutionResult :=
  { ok := false, answerCode := exc.answerCode, responsePayload := .null, responseFormat := .none
    errorCode := some (systemErrorCode kind)
    errorMessage := some (Sanitize.truncateText exc.message)
    errorReason := exc.errorReason, errorDetails := details }

def fromResponseError (resp : DriverResponse) (kind : TargetFaultKind) (details : Option Fields) :
    ExecutionResult :=
  let safePayload := Fields.read (details.getD []) "response_payload"
  { ok := false, answerCode := resp.answerCode, responsePayload := safePayload
    responseFormat := if safePayload.isNull then .none else resp.payloadFormat
    errorCode := some (systemErrorCode kind)
    errorMessage := some (formatAnswerFailure resp.answerCode)
    errorReason := resp.errorReason, errorDetails := details }

def failure (code : SystemErrorCode) (text : String) : ExecutionResult :=
  { ok := false, answerCode := .null, responsePayload := .null, responseFormat := .none
    errorCode := some code, errorMessage := some (Sanitize.truncateText text)
    errorReason := none, errorDetails := none }

def unexpectedFailure (exc : PyException) : ExecutionResult := failure .infraUnavailable exc.text

def specError (exc : PyException) : ExecutionResult := failure (systemErrorCode .spec) exc.text

/-- `from_driver_error` of the fault handler. -/
def faultOfError (exc : DriverError) : Fault :=
  let status := asStatusCode exc.answerCode
  let kind := spec.classifyFault status (some exc.code)
  let action := spec.resolveRetryAction kind status exc.errorReason
  { kind := kind, action := action, retryAfterS := exc.retryAfterS
    result := fromDriverError exc kind (spec.buildExcDetails exc action) }

/-- `from_driver_response` of the fault handler. -/
def faultOfResponse (resp : DriverResponse) : Fault :=
  let status := asStatusCode resp.answerCode
  let kind := spec.classifyFault status none
  let action := spec.resolveRetryAction kind status resp.errorReason
  { kind := kind, action := action, retryAfterS := resp.retryAfterS
    result := fromResponseError resp kind (spec.buildRespDetails resp action) }

/-- The fault of an answer that may be retried. -/
def faultOf : Answer → Option Fault
  | .response resp => if resp.ok then none else some (spec.faultOfResponse resp)
  | .driverError exc => some (spec.faultOfError exc)
  | .raised _ => none

/-- Whether the rules answer with a retry that changes the request. -/
def asksMutation (answer : Answer) : Bool :=
  (spec.faultOf answer).any fun f => f.action.mutation.isSome

end TargetSpec

/-- A mutation rewrites the request with a fresh random identifier at hand. -/
abbrev TargetMutation := String → RequestSpec → Except PyException RequestSpec

def regenerateTargetId : TargetMutation := fun fresh spec =>
  let params := Dict.set (spec.operationParams.getD []) "target_id" (.str fresh)
  .ok { spec with operationParams := some params }

def buildAnkeyMutations : Dict String TargetMutation :=
  [("regenerate_target_id",regenerateTargetId)]

/-- The backoff of the retries, and what the platform does when it is asked to sleep. -/
structure RetryEngine where
  wait : Nat → Delay
  sleep : Delay → Except PyException Unit

namespace Delay

def isPositive : Delay → Bool
  | .seconds q => decide (0 < q)
  | .infinite => true
  | .notANumber => false

/-- `max(0.0, delay)` -/
def clamp : Delay → Delay
  | .seconds q => .seconds (max 0 q)
  | .infinite => .infinite
  | .notANumber => .seconds 0

end Delay

namespace RetryEngine

variable (engine : RetryEngine)

def pause (delay : Delay) : Except PyException Unit :=
  if delay.isPositive then engine.sleep delay else .ok ()

/-- The wait before a retry: what the target asked for, when the directive honours it. -/
def waitFor (directive : RetryDirective) (retryAfterS : Option Delay) (retriesUsed : Nat) :
    Except PyException Unit :=
  match directive, retryAfterS with
  | .retryAfter, some delay => engine.pause delay.clamp
  | _, _ => engine.pause (engine.wait (max 1 retriesUsed))

end RetryEngine

/-- The other side: the answers in order, the identifiers the target assigns by itself, and
the random identifiers. -/
structure TargetWorld where
  answers : Nat → Answer
  assigns : Nat → String
  uuids : Nat → String

structure GatewayState where
  requests : Nat
  retries : Nat
  failures : Nat
  draws : Nat
  deriving DecidableEq, Repr

structure DriverCall where
  number : Nat
  spec : RequestSpec
  request : HttpRequest
  answer : Answer
  deriving DecidableEq, Repr

structure Execution where
  result : Except PyException ExecutionResult
  state : GatewayState
  calls : List DriverCall
  deriving DecidableEq

def Execution.after (call : DriverCall) (e : Execution) : Execution :=
  { e with calls := call::e.calls }

structure TargetGateway where
  spec : TargetSpec
  engine : RetryEngine
  mutations : Dict String TargetMutation

namespace GatewayState

variable (st : GatewayState)

def failed : GatewayState := { st with failures := st.failures + 1 }

def requested : GatewayState := { st with requests := st.requests + 1 }

def retried : GatewayState := { st with retries := st.retries + 1 }

@[simp] theorem failed_requests : st.failed.requests = st.requests := rfl
@[simp] theorem requested_requests : st.requested.requests = st.requests + 1 := rfl
@[simp] theorem requested_draws : st.requested.draws = st.draws := rfl
@[simp] theorem retried_requests : st.retried.requests = st.requests := rfl
@[simp] theorem retried_draws : st.retried.draws = st.draws := rfl

end GatewayState

namespace TargetGateway

variable (g : TargetGateway) (world : TargetWorld)

def buildRequest (spec : RequestSpec) : Except PyException HttpRequest :=
  (g.spec.getCompiledOperation spec.operationAlias).bind fun op =>
    op.build spec.operationParams spec.payload

/-- `TargetMutationRegistry.apply` -/
def applyMutation (name : String) (spec : RequestSpec) (st : GatewayState) :
    Except PyException (RequestSpec × GatewayState) :=
  match Dict.get? g.mutations name with
  | none => .error ⟨"ValueError","unknown mutation: " ++ name⟩
  | some mutate => (mutate (world.uuids st.draws) spec).map fun next =>
      (next,{ st with draws := st.draws + 1 })

/-- What an exception of a retry step makes of the call: a `ValueError` is a specification
error, any other one escapes. -/
def retryRaised (exc : PyException) (st : GatewayState) : Execution :=
  if exc.isValueError then ⟨.ok (TargetSpec.specError exc),st.failed,[]⟩ else ⟨.error exc,st,[]⟩

def buildFailed (exc : PyException) (st : GatewayState) : Execution :=
  if exc.isValueError then ⟨.ok (TargetSpec.specError exc),st.failed,[]⟩
  else ⟨.ok (TargetSpec.unexpectedFailure exc),st.failed,[]⟩

def giveUp (fault : Fault) (st : GatewayState) : Execution := ⟨.ok fault.result,st.failed,[]⟩

/-- An answer that no rule can retry ends the call. -/
def conclude (answer : Answer) (st : GatewayState) : Execution :=
  match answer with
  | .response resp => ⟨.ok (g.spec.executeSuccess resp),st,[]⟩
  | .driverError exc => giveUp (g.spec.faultOfError exc) st
  | .raised exc => ⟨.ok (TargetSpec.unexpectedFailure exc),st.failed,[]⟩

/-- One round of the loop in `execute`; a fault goes to the given continuation. -/
def attempt (settle : Fault → GatewayState → Execution) (spec : RequestSpec)
    (st : GatewayState) : Execution :=
  match g.buildRequest spec with
  | .error exc => buildFailed exc st
  | .ok request =>
    let answer := world.answers st.requests
    Execution.after ⟨st.requests,spec,request,answer⟩ <|
      match g.spec.faultOf answer with
      | none => g.conclude answer st.requested
      | some fault => settle fault st.requested

/-- The request and the counters of the next attempt. -/
def nextAttempt (fault : Fault) (spec : RequestSpec) (st : GatewayState) :
    Except PyException (RequestSpec × GatewayState) :=
  match fault.action.mutation with
  | none => .ok (spec,st)
  | some name => g.applyMutation world name spec st

def isRetried (fault : Fault) : Bool :=
  fault.action.directive == .retryBackoff || fault.action.directive == .retryAfter

/-- `_apply_execute_retry` with a retry left: the mutation comes before the counters. -/
def resend (again : RequestSpec → GatewayState → Execution) (retriesUsed : Nat)
    (fault : Fault) (spec : RequestSpec) (st : GatewayState) : Execution :=
  match g.nextAttempt world fault spec st with
  | .error exc => retryRaised exc st
  | .ok (next,st) =>
    match g.engine.waitFor fault.action.directive fault.retryAfterS retriesUsed with
    | .error exc => retryRaised exc st.retried
    | .ok () => again next st.retried

/-- The loop of `execute`, by the number of retries that are left. -/
def attempts : Nat → RequestSpec → GatewayState → Execution
  | 0, spec, st => g.attempt world giveUp spec st
  | left+1, spec, st => g.attempt world (fun fault st =>
      if isRetried fault then
        g.resend world (attempts left) (g.spec.maxAttempts - left) fault spec st
      else giveUp fault st) spec st

def execute (spec : RequestSpec) (st : GatewayState) : Execution :=
  match g.spec.requireCapability .execute with
  | .error exc => ⟨.ok (TargetSpec.specError exc),st.failed,[]⟩
  | .ok () => g.attempts world g.spec.maxAttempts spec st

end TargetGateway

/-- The first answer, from a position on, that takes the request. -/
structure FirstOk (answers : Nat → Answer) (start m : Nat) : Prop where
  from_start : start ≤ m
  taken : (answers m).ok = true
  refused : ∀ j, start ≤ j → j < m → (answers j).ok = false

theorem FirstOk.unique {answers : Nat → Answer} {start m n : Nat} (hm : FirstOk answers start m)
    (hn : FirstOk answers start n) : m = n := by
  rcases Nat.lt_trichotomy m n with h | h | h
  · have hfalse := hn.refused m hm.from_start h
    rw [hm.taken] at hfalse
    cases hfalse
  · exact h
  · have hfalse := hm.refused n hn.from_start h
    rw [hn.taken] at hfalse
    cases hfalse

theorem FirstOk.later {answers : Nat → Answer} {start m : Nat} (h : FirstOk answers (start+1) m)
    (hstart : (answers start).ok = false) : FirstOk answers start m where
  from_start := by
    have := h.from_start
    omega
  taken := h.taken
  refused := by
    intro j hj hm
    by_cases heq : j = start
    · rw [heq, hstart]
    · exact h.refused j (by omega) hm

def RequestSpec.targetId? (spec : RequestSpec) : Option Value :=
  Dict.get? (spec.operationParams.getD []) "target_id"

/-- The provider's gateway: the only mutation is the one that draws a new `target_id`. -/
def ankeyGateway (spec : TargetSpec) (engine : RetryEngine) : TargetGateway :=
  ⟨spec,engine,buildAnkeyMutations⟩

namespace TargetGateway

variable {g : TargetGateway} {world : TargetWorld}

theorem faultOf_ok {answer : Answer} {fault : Fault} (h : g.spec.faultOf answer = some fault) :
    answer.ok = false := by
  cases answer with
  | response resp =>
    simp only [TargetSpec.faultOf] at h
    split at h
    · cases h
    · simpa [Answer.ok] using ‹¬resp.ok = true›
  | driverError exc => rfl
  | raised exc => rfl

theorem fault_result (answer : Answer) {fault : Fault} (h : g.spec.faultOf answer = some fault) :
    fault.result.ok = false := by
  cases answer with
  | response resp =>
    simp only [TargetSpec.faultOf] at h
    split at h
    · cases h
    · cases h
      rfl
  | driverError exc =>
    cases h
    rfl
  | raised exc => cases h

/-- A result that reports success. -/
def Succeeds (e : Execution) (r : ExecutionResult) : Prop := e.result = .ok r ∧ r.ok = true

theorem not_succeeds_retryRaised (exc : PyException) (st : GatewayState) (r : ExecutionResult) :
    ¬Succeeds (retryRaised exc st) r := by
  rintro ⟨h,hr⟩
  unfold retryRaised at h
  split at h
  · cases h
    cases hr
  · cases h

theorem not_succeeds_buildFailed (exc : PyException) (st : GatewayState) (r : ExecutionResult) :
    ¬Succeeds (buildFailed exc st) r := by
  rintro ⟨h,hr⟩
  unfold buildFailed at h
  split at h <;> · cases h; cases hr

/-- A successful round either was taken by the target or went on after a fault. -/
theorem attempt_cases {settle : Fault → GatewayState → Execution} {spec : RequestSpec}
    {st : GatewayState} {r : ExecutionResult} (h : Succeeds (g.attempt world settle spec st) r) :
    ∃ request, g.buildRequest spec = .ok request ∧
      ((∃ resp, world.answers st.requests = .response resp ∧ resp.ok = true ∧
          r = g.spec.executeSuccess resp ∧ (g.attempt world settle spec st).calls =
            [⟨st.requests,spec,request,.response resp⟩]) ∨
        ∃ fault, g.spec.faultOf (world.answers st.requests) = some fault ∧
          Succeeds (settle fault st.requested) r ∧ (g.attempt world settle spec st).calls =
            ⟨st.requests,spec,request,world.answers st.requests⟩::
              (settle fault st.requested).calls) := by
  unfold attempt at h ⊢
  split at h
  · exact absurd h (not_succeeds_buildFailed _ _ _)
  · rename_i request hbuild
    refine ⟨request,by assumption,?_⟩
    dsimp only at h ⊢
    split at h
    · rename_i hfault
      left
      cases hanswer : world.answers st.requests with
      | response resp =>
        rw [hanswer] at h hfault
        have hok : resp.ok = true := by simpa [TargetSpec.faultOf] using hfault
        have hres : (.ok (g.spec.executeSuccess resp) : Except PyException ExecutionResult) =
            .ok r := h.1
        cases hres
        exact ⟨resp,rfl,hok,rfl,by simp [Execution.after, conclude]⟩
      | driverError exc =>
        rw [hanswer] at hfault
        cases hfault
      | raised exc =>
        rw [hanswer] at h
        have hres : (.ok (TargetSpec.unexpectedFailure exc) : Except PyException ExecutionResult) =
            .ok r := h.1
        cases hres
        cases h.2
    · rename_i fault hfault
      exact .inr ⟨fault,hfault,h,by simp [Execution.after]⟩

/-- What a successful call did: the target took the request `final` at position `m`. -/
structure Accepts (g : TargetGateway) (world : TargetWorld) (spec : RequestSpec)
    (st : GatewayState) (e : Execution) (m : Nat) (resp : DriverResponse) (final : RequestSpec)
    (request : HttpRequest) (refused : List DriverCall) : Prop where
  first : FirstOk world.answers st.requests m
  answer : world.answers m = .response resp
  result : e.result = .ok (g.spec.executeSuccess resp)
  built : g.buildRequest final = .ok request
  calls : e.calls = refused ++ [⟨m,final,request,.response resp⟩]
  faults : ∀ c ∈ refused, c.answer.ok = false
  sameAlias : final.operationAlias = spec.operationAlias
  kept : (∀ j, st.requests ≤ j → j < m → g.spec.asksMutation (world.answers j) = false) →
    final = spec
  renewed : (∃ j, st.requests ≤ j ∧ j < m ∧ g.spec.asksMutation (world.answers j) = true) →
    ∃ k, final.targetId? = some (.str (world.uuids k))

theorem nextAttempt_kept {fault : Fault} {spec next : RequestSpec} {st st' : GatewayState}
    (h : g.nextAttempt world fault spec st = .ok (next,st'))
    (hnone : fault.action.mutation.isSome = false) : next = spec ∧ st' = st := by
  have hmutation : fault.action.mutation = none := by simpa using hnone
  rw [nextAttempt, hmutation] at h
  cases h
  exact ⟨rfl,rfl⟩

/-- The provider's registry either leaves the request alone or gives it a drawn identifier. -/
theorem nextAttempt_cases {spec : TargetSpec} {engine : RetryEngine} {fault : Fault}
    {sent next : RequestSpec} {st st' : GatewayState}
    (h : (ankeyGateway spec engine).nextAttempt world fault sent st = .ok (next,st')) :
    next.operationAlias = sent.operationAlias ∧ st'.requests = st.requests ∧
      (fault.action.mutation.isSome = true →
        next.targetId? = some (.str (world.uuids st.draws))) := by
  unfold nextAttempt at h
  split at h
  · rename_i hnone
    cases h
    exact ⟨rfl,rfl,by simp [hnone]⟩
  · rename_i name hsome
    unfold applyMutation at h
    split at h
    · cases h
    · rename_i mutate hmutate
      have hregen : mutate = regenerateTargetId := by
        simp only [ankeyGateway, buildAnkeyMutations, Dict.get?] at hmutate
        split at hmutate
        · exact (Option.some.inj hmutate).symm
        · cases hmutate
      rw [hregen] at h
      cases h
      exact ⟨rfl,rfl,fun _ => by simp [RequestSpec.targetId?]⟩

theorem resend_cases {again : RequestSpec → GatewayState → Execution} {used : Nat} {fault : Fault}
    {spec : RequestSpec} {st : GatewayState} {r : ExecutionResult}
    (h : Succeeds (g.resend world again used fault spec st) r) :
    ∃ next st', g.nextAttempt world fault spec st = .ok (next,st') ∧
      g.resend world again used fault spec st = again next st'.retried := by
  unfold resend at h ⊢
  split at h
  · exact absurd h (not_succeeds_retryRaised _ _ _)
  · rename_i next st' hnext
    split at h
    · exact absurd h (not_succeeds_retryRaised _ _ _)
    · rename_i hwait
      exact ⟨next,st',by assumption,rfl⟩

/-- A call that was answered ok at once. -/
theorem Accepts.of_taken {spec : RequestSpec} {st : GatewayState} {e : Execution}
    {request : HttpRequest} {resp : DriverResponse} (hbuild : g.buildRequest spec = .ok request)
    (hanswer : world.answers st.requests = .response resp) (hok : resp.ok = true)
    (hresult : e.result = .ok (g.spec.executeSuccess resp))
    (hcalls : e.calls = [⟨st.requests,spec,request,.response resp⟩]) :
    Accepts g world spec st e st.requests resp spec request [] where
  first := ⟨Nat.le_refl _,by simp [hanswer, Answer.ok, hok],fun j h h' => by omega⟩
  answer := hanswer
  result := hresult
  built := hbuild
  calls := hcalls
  faults := by simp
  sameAlias := rfl
  kept := fun _ => rfl
  renewed := by
    rintro ⟨j,h,h',_⟩
    omega

/-- A refused request before a call of the provider's gateway that succeeds. -/
theorem Accepts.resent {ts : TargetSpec} {engine : RetryEngine} {spec next final : RequestSpec}
    {st st' : GatewayState} {e e' : Execution} {request last : HttpRequest} {fault : Fault}
    {m : Nat} {resp : DriverResponse} {refused : List DriverCall}
    (hfault : ts.faultOf (world.answers st.requests) = some fault)
    (hnext : (ankeyGateway ts engine).nextAttempt world fault spec st.requested = .ok (next,st'))
    (hresult : e.result = e'.result)
    (hcalls : e.calls = ⟨st.requests,spec,request,world.answers st.requests⟩::e'.calls)
    (h : Accepts (ankeyGateway ts engine) world next st'.retried e' m resp final last refused) :
    Accepts (ankeyGateway ts engine) world spec st e m resp final last
      (⟨st.requests,spec,request,world.answers st.requests⟩::refused) := by
  obtain ⟨halias,hrequests,hdrawn⟩ := nextAttempt_cases hnext
  have hrefused : (world.answers st.requests).ok = false :=
    faultOf_ok (g := ankeyGateway ts engine) hfault
  have hstart : st'.retried.requests = st.requests + 1 := hrequests
  have hasks : ts.asksMutation (world.answers st.requests) = fault.action.mutation.isSome := by
    simp [TargetSpec.asksMutation, hfault]
  have hfirst := h.first
  rw [hstart] at hfirst
  refine ⟨hfirst.later hrefused,h.answer,hresult.trans h.result,h.built,?_,?_,?_,?_,?_⟩
  · rw [hcalls, h.calls]
    rfl
  · intro c hc
    rcases List.mem_cons.mp hc with rfl | hc
    · exact hrefused
    · exact h.faults c hc
  · rw [h.sameAlias, halias]
  · intro hnone
    have hkept := h.kept fun j hj hm => hnone j (by omega) hm
    have hlast := hfirst.from_start
    have hself := hnone st.requests (Nat.le_refl _) (by omega)
    rw [show (ankeyGateway ts engine).spec = ts from rfl, hasks] at hself
    rw [hkept, (nextAttempt_kept hnext hself).1]
  · rintro ⟨j,hj,hm,hmutates⟩
    by_cases hlater : ∃ j, st.requests + 1 ≤ j ∧ j < m ∧ ts.asksMutation (world.answers j) = true
    · exact h.renewed (by rw [hstart]; exact hlater)
    · have hnone : ∀ j, st'.retried.requests ≤ j → j < m →
          ts.asksMutation (world.answers j) = false := by
        intro i hi him
        by_contra hne
        exact hlater ⟨i,by omega,him,by simpa using hne⟩
      have hself : j = st.requests := by
        by_contra hne
        exact hlater ⟨j,by omega,hm,hmutates⟩
      rw [hself, show (ankeyGateway ts engine).spec = ts from rfl, hasks] at hmutates
      rw [h.kept hnone]
      exact ⟨_,hdrawn hmutates⟩

/-- Every successful call of the provider's gateway ends with the first answer that takes the
request, as the mutations on the way have left it. -/
theorem attempts_accepts (ts : TargetSpec) (engine : RetryEngine) {left : Nat}
    {spec : RequestSpec} {st : GatewayState} {r : ExecutionResult}
    (h : Succeeds ((ankeyGateway ts engine).attempts world left spec st) r) :
    ∃ m resp final request refused, r = ts.executeSuccess resp ∧
      Accepts (ankeyGateway ts engine) world spec st
        ((ankeyGateway ts engine).attempts world left spec st) m resp final request refused := by
  induction left generalizing spec st with
  | zero =>
    obtain ⟨request,hbuild,⟨resp,hanswer,hok,rfl,hcalls⟩ | ⟨fault,hfault,hgive,_⟩⟩ := attempt_cases h
    · exact ⟨_,_,_,_,_,rfl,.of_taken hbuild hanswer hok h.1 hcalls⟩
    · have hfalse := fault_result _ hfault
      cases hgive.1
      rw [hgive.2] at hfalse
      cases hfalse
  | succ left ih =>
    obtain ⟨request,hbuild,⟨resp,hanswer,hok,rfl,hcalls⟩ | ⟨fault,hfault,hsettle,hcalls⟩⟩ :=
      attempt_cases h
    · exact ⟨_,_,_,_,_,rfl,.of_taken hbuild hanswer hok h.1 hcalls⟩
    · by_cases hretried : isRetried fault = true
      · simp only [hretried, if_true] at hsettle hcalls
        obtain ⟨next,st',hnext,hagain⟩ := resend_cases hsettle
        rw [hagain] at hsettle hcalls
        obtain ⟨m,resp,final,last,refused,hr,haccepts⟩ := ih hsettle
        refine ⟨m,resp,final,last,_,hr,haccepts.resent hfault hnext ?_ hcalls⟩
        exact h.1.trans hsettle.1.symm
      · have hgive : Succeeds (giveUp fault st.requested) r := by simpa [hretried] using hsettle
        have hfalse := fault_result _ hfault
        cases hgive.1
        rw [hgive.2] at hfalse
        cases hfalse

theorem execute_accepts (ts : TargetSpec) (engine : RetryEngine) {spec : RequestSpec}
    {st : GatewayState} {r : ExecutionResult}
    (h : Succeeds ((ankeyGateway ts engine).execute world spec st) r) :
    ∃ m resp final request refused, r = ts.executeSuccess resp ∧
      Accepts (ankeyGateway ts engine) world spec st
        ((ankeyGateway ts engine).execute world spec st) m resp final request refused := by
  unfold execute at h ⊢
  split at h
  · cases h.1
    cases h.2
  · exact attempts_accepts ts engine h

end TargetGateway
end NexusEtl
