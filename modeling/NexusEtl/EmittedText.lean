import NexusEtl.JsonDumps
import NexusEtl.PagedRead

/-!
# What an execution emits

The transport prints every request that it sends and every response that it gets;
the gateway logs refused answers and retries, and puts details into the result. Two
executions that differ in secret values only are told apart by what they emit as soon
as one of these values is sent or received.
-/

set_option autoImplicit false

namespace NexusEtl
open NexusEtl.Library

structure RawResponse where
  statusCode : Int
  headers : Dict String String
  text : String
  deriving DecidableEq, Repr

/-- What one `client.request` ends in: a response, an error of the transport, or any other
exception. -/
inductive Reply
  | response (r : RawResponse)
  | networkError (message : String)
  | raised (exc : PyException)
  deriving DecidableEq, Repr

/-- Something that is written: a line on stdout or a record of the structured log. -/
inductive Emitted
  | stdout (line : String)
  | requestFailed (answerCode : Value) (faultKind : TargetFaultKind)
      (contentPreview : Option String) (responsePayload : Option Value)
  | retryPlanned (faultKind : TargetFaultKind) (retriesUsed maxRetries : Nat) (delay : Delay)
      (mutation : Option String)
  deriving DecidableEq, Repr

/-- The transport: how it reads a JSON text, what the provider makes of a body, how the
platform reads a header, and `round(delay, 3)`. -/
structure HttpTransport where
  loads : String → Option Value
  errorReason : Value → Option String → Option String
  reader : RetryAfterReader
  roundMillis : Delay → Delay
  decimals : ∀ text v, loads text = some v → v.Decimal

def headersValue (headers : Dict String String) : Value :=
  .dict (headers.map fun h => (h.1,.str h.2))

def inferResponsePayloadFormat : Value → ResponsePayloadFormat
  | .null => .none
  | .dict _ | .list _ => .json
  | .str _ => .text
  | _ => .object

def headerValueCaseInsensitive (headers : Dict String String) (name : String) : Option String :=
  (headers.find? fun h => Text.lower h.1 == Text.lower (Text.strip name)).map fun h => h.2

def emitTargetRequestTrace (req : HttpRequest) : Emitted :=
  .stdout <| "TARGET_HTTP_REQUEST method=" ++ req.method ++ " path=" ++ req.path ++ " query=" ++
    Value.dumps (.dict req.query) ++ " headers=" ++ (headersValue req.headers).dumps ++ " body=" ++
    req.json.dumps

def emitTargetResponseTrace (req : HttpRequest) (status : Int) (headers : Dict String String)
    (body : Value) : Emitted :=
  .stdout <| "TARGET_HTTP_RESPONSE method=" ++ req.method ++ " path=" ++ req.path ++ " status=" ++
    toString status ++ " headers=" ++ (headersValue headers).dumps ++ " body=" ++ body.dumps

namespace HttpTransport

variable (t : HttpTransport)

/-- `_parse_body`: the body and its first characters. -/
def parseBody (text : String) : Value × Option String :=
  if text = "" then (.null,none)
  else ((t.loads text).getD (.str text),some (String.ofList (text.toList.take 200)))

/-- `normalize_http_outcome` of what `request_once` returns. -/
def normalize : Reply → Except PyException HttpNormalizedOutcome
  | .response r => .ok
      { statusCode := some r.statusCode, body := (t.parseBody r.text).1
        bodySnippet := (t.parseBody r.text).2, errorCode := none, errorMessage := none
        retryAfterS := parseRetryAfter t.reader
          (headerValueCaseInsensitive r.headers "Retry-After") }
  | .networkError message => .ok
      { statusCode := none, body := .null, bodySnippet := none
        errorCode := some "NETWORK_ERROR", errorMessage := some message, retryAfterS := none }
  | .raised exc => .error exc

/-- `BaseHttpDriver.execute` -/
def answer (req : HttpRequest) (reply : Reply) : Answer :=
  match t.normalize reply with
  | .error exc => .raised exc
  | .ok normalized =>
    let reason := t.errorReason normalized.body normalized.bodySnippet
    match normalized.errorCode, normalized.statusCode with
    | some code, _ => .driverError
        { message := (normalized.errorMessage.filter fun m => m ≠ "").getD code, code := code
          answerCode := HttpDriver.statusValue normalized.statusCode
          contentPreview := normalized.bodySnippet, details := []
          retryAfterS := normalized.retryAfterS, errorReason := reason }
    | none, none => .driverError
        { message := "empty http response", code := "HTTP_OUTCOME_EMPTY", answerCode := .null
          contentPreview := none, details := [], retryAfterS := none, errorReason := none }
    | none, some status => .response
        { ok := req.expectedStatuses.contains status, answerCode := .int status
          payload := normalized.body, contentPreview := normalized.bodySnippet
          payloadFormat := inferResponsePayloadFormat normalized.body, errorReason := reason
          retryAfterS := normalized.retryAfterS }

/-- The lines that `request_once` prints. -/
def traces (req : HttpRequest) (reply : Reply) : List Emitted :=
  emitTargetRequestTrace req::match reply with
    | .response r => [emitTargetResponseTrace req r.statusCode r.headers (t.parseBody r.text).1]
    | _ => []

end HttpTransport

namespace RetryEngine

/-- The wait that is computed before a retry. -/
def delayFor (engine : RetryEngine) (directive : RetryDirective) (retryAfterS : Option Delay)
    (retriesUsed : Nat) : Delay :=
  match directive, retryAfterS with
  | .retryAfter, some delay => delay.clamp
  | _, _ => engine.wait (max 1 retriesUsed)

theorem waitFor_eq_pause (engine : RetryEngine) (directive : RetryDirective)
    (retryAfterS : Option Delay) (retriesUsed : Nat) :
    engine.waitFor directive retryAfterS retriesUsed =
      engine.pause (engine.delayFor directive retryAfterS retriesUsed) := by
  cases directive with
  | retryAfter => cases retryAfterS <;> rfl
  | _ => rfl

end RetryEngine

/-- What goes over the wire, what is written, and what is returned. -/
structure Observation where
  exchanges : List (HttpRequest × Reply)
  output : List Emitted
  result : Except PyException ExecutionResult
  deriving DecidableEq

namespace Observation

def ended (result : Except PyException ExecutionResult) : Observation := ⟨[],[],result⟩

def logged (record : List Emitted) (o : Observation) : Observation :=
  { o with output := record ++ o.output }

def exchanged (req : HttpRequest) (reply : Reply) (o : Observation) : Observation :=
  { o with exchanges := (req,reply)::o.exchanges }

def errorDetails (o : Observation) : Option Fields :=
  match o.result with
  | .ok r => r.errorDetails
  | .error _ => none

end Observation

namespace TargetGateway

variable (t : HttpTransport) (g : TargetGateway) (replies : Nat → Reply) (world : TargetWorld)

/-- `log_response_error`; errors of the transport are not logged. -/
def logResponseError (answer : Answer) (kind : TargetFaultKind) : List Emitted :=
  match answer with
  | .response resp => [.requestFailed resp.answerCode kind
      ((resp.contentPreview.filter fun p => p ≠ "").map Sanitize.truncateText)
      (match resp.payload with
        | .dict _ | .list _ => some (g.spec.safeBody resp.payload)
        | .str s => some (.str (Sanitize.truncateText s))
        | _ => none)]
  | _ => []

def debugRetry (fault : Fault) (retriesUsed : Nat) : Emitted :=
  .retryPlanned fault.kind retriesUsed g.spec.maxAttempts
    (t.roundMillis (g.engine.delayFor fault.action.directive fault.retryAfterS retriesUsed))
    fault.action.mutation

/-- What a planned retry leads to, with a way to go on. -/
def observeRetry (again : RequestSpec → GatewayState → Observation) (retriesUsed : Nat)
    (fault : Fault) (spec : RequestSpec) (st : GatewayState) : Observation :=
  match g.nextAttempt world fault spec st with
  | .error exc => .ended (retryRaised exc st).result
  | .ok (next,st) =>
    match g.engine.waitFor fault.action.directive fault.retryAfterS retriesUsed with
    | .error exc => .ended (retryRaised exc st.retried).result
    | .ok () => .logged [g.debugRetry t fault retriesUsed] (again next st.retried)

def observeAttempt (settle : Fault → GatewayState → Observation) (spec : RequestSpec)
    (st : GatewayState) : Observation :=
  match g.buildRequest spec with
  | .error exc => .ended (buildFailed exc st).result
  | .ok req =>
    let reply := replies st.requests
    let answer := t.answer req reply
    .exchanged req reply <| .logged (t.traces req reply) <|
      match g.spec.faultOf answer with
      | none => .ended (g.conclude answer st.requested).result
      | some fault => .logged (g.logResponseError answer fault.kind) (settle fault st.requested)

/-- The loop of `execute` over the transport, by the number of retries that are left. -/
def observeAttempts : Nat → RequestSpec → GatewayState → Observation
  | 0, spec, st =>
    observeAttempt t g replies (fun fault st => .ended (giveUp fault st).result) spec st
  | left+1, spec, st => observeAttempt t g replies (fun fault st =>
      if isRetried fault then
        observeRetry t g world (observeAttempts left) (g.spec.maxAttempts - left) fault spec st
      else .ended (giveUp fault st).result) spec st

def observe (spec : RequestSpec) (st : GatewayState) : Observation :=
  match g.spec.requireCapability .execute with
  | .error exc => .ended (.ok (TargetSpec.specError exc))
  | .ok () => observeAttempts t g replies world g.spec.maxAttempts spec st

end TargetGateway

/-- The declared secrets: names of fields and of headers, in lower case. -/
structure RedactionSpec where
  forbiddenMetadataKeys : List String
  forbiddenFields : List String

namespace RedactionSpec

variable (policy : RedactionSpec)

def isSecretField (key : String) : Bool :=
  Sanitize.isSensitive key || policy.forbiddenFields.contains (Text.lower key)

def isForbiddenHeader (name : String) : Bool :=
  policy.forbiddenMetadataKeys.contains (Text.lower name)

mutual
/-- Two values that differ under secret fields only. -/
def Agree : Value → Value → Prop
  | .dict a, .dict b => AgreeFields a b
  | .list a, .list b => AgreeItems a b
  | a, b => a = b

def AgreeFields : List (String × Value) → List (String × Value) → Prop
  | [], [] => True
  | (k,v)::a, (l,w)::b => k = l ∧ (policy.isSecretField k = true ∨ Agree v w) ∧ AgreeFields a b
  | _, _ => False

def AgreeItems : List Value → List Value → Prop
  | [], [] => True
  | v::a, w::b => Agree v w ∧ AgreeItems a b
  | _, _ => False
end

def AgreeHeaders (a b : Dict String String) : Prop :=
  List.Forall₂ (fun h k => h.1 = k.1 ∧ (policy.isForbiddenHeader h.1 = true ∨ h.2 = k.2)) a b

/-- Two responses that differ in forbidden headers and in the secret fields of a JSON body only:
texts that are not the same hold values that are not. -/
structure AgreeResponses (t : HttpTransport) (r r' : RawResponse) : Prop where
  statusCode : r.statusCode = r'.statusCode
  headers : policy.AgreeHeaders r.headers r'.headers
  text : r.text = r'.text ∨ r.text ≠ "" ∧ r'.text ≠ "" ∧ ∃ v w, t.loads r.text = some v ∧
    t.loads r'.text = some w ∧ v ≠ w ∧ policy.Agree v w

def AgreeReplies (t : HttpTransport) : Reply → Reply → Prop
  | .response r, .response r' => policy.AgreeResponses t r r'
  | reply, reply' => reply = reply'

/-- Two targets that differ in the forbidden headers of their operations only. -/
structure AgreeSpecs (s s' : TargetSpec) : Prop where
  targetType : s'.targetType = s.targetType
  capabilities : s'.capabilities = s.capabilities
  faultRules : s'.faultRules = s.faultRules
  retryRules : s'.retryRules = s.retryRules
  maxAttempts : s'.maxAttempts = s.maxAttempts
  bodyMode : s'.bodyMode = s.bodyMode
  operations : List.Forall₂ (fun o o' => o'.1 = o.1 ∧ ∃ headers,
    o'.2 = { o.2 with headerDefaults := headers } ∧
      policy.AgreeHeaders o.2.headerDefaults headers) s.operations s'.operations

structure AgreeGateways (g g' : TargetGateway) : Prop where
  engine : g'.engine = g.engine
  mutations : g'.mutations = g.mutations
  spec : policy.AgreeSpecs g.spec g'.spec

structure AgreeRequests (spec spec' : RequestSpec) : Prop where
  operationAlias : spec'.operationAlias = spec.operationAlias
  operationParams : spec'.operationParams = spec.operationParams
  payload : policy.Agree spec.payload spec'.payload
  decimal : spec.payload.Decimal
  decimal' : spec'.payload.Decimal

variable {policy}

namespace AgreeSpecs

variable {s s' : TargetSpec} (h : policy.AgreeSpecs s s')

include h

theorem requireCapability_eq (c : TargetCapability) :
    s'.requireCapability c = s.requireCapability c := by
  unfold TargetSpec.requireCapability
  rw [h.capabilities, h.targetType]

theorem safeBody_eq (v : Value) : s'.safeBody v = s.safeBody v := by
  unfold TargetSpec.safeBody
  rw [h.bodyMode]

theorem classifyFault_eq (status : Option Int) (code : Option String) :
    s'.classifyFault status code = s.classifyFault status code := by
  unfold TargetSpec.classifyFault TargetSpec.classifyStatus TargetSpec.faultByCode
    TargetSpec.faultByStatus TargetSpec.faultByRange
  rw [h.faultRules]

theorem resolveRetryAction_eq (kind : TargetFaultKind) (status : Option Int)
    (reason : Option String) :
    s'.resolveRetryAction kind status reason = s.resolveRetryAction kind status reason := by
  unfold TargetSpec.resolveRetryAction
  rw [h.retryRules]

theorem buildExcDetails_eq (exc : DriverError) (action : ResolvedRetryAction) :
    s'.buildExcDetails exc action = s.buildExcDetails exc action := by
  have hdetails : s'.safeDetails exc.details = s.safeDetails exc.details := by
    unfold TargetSpec.safeDetails
    rw [h.safeBody_eq]
  unfold TargetSpec.buildExcDetails
  rw [hdetails]

theorem faultOf_eq (answer : Answer) : s'.faultOf answer = s.faultOf answer := by
  cases answer with
  | response resp =>
    simp only [TargetSpec.faultOf, TargetSpec.faultOfResponse, TargetSpec.buildRespDetails,
      TargetSpec.buildErrorDetails, h.safeBody_eq, h.classifyFault_eq, h.resolveRetryAction_eq]
  | driverError exc =>
    simp only [TargetSpec.faultOf, TargetSpec.faultOfError, h.buildExcDetails_eq, h.classifyFault_eq,
      h.resolveRetryAction_eq]
  | raised exc => rfl

theorem faultOfError_eq (exc : DriverError) : s'.faultOfError exc = s.faultOfError exc :=
  Option.some.inj (h.faultOf_eq (.driverError exc))

end AgreeSpecs

/-- The requests of an operation in two executions differ in their headers and bodies. -/
theorem AgreeGateways.buildRequest_cases {g g' : TargetGateway} (h : policy.AgreeGateways g g')
    {spec spec' : RequestSpec} (halias : spec'.operationAlias = spec.operationAlias)
    (hparams : spec'.operationParams = spec.operationParams) :
    (∃ exc, g.buildRequest spec = .error exc ∧ g'.buildRequest spec' = .error exc) ∨
      ∃ req headers, g.buildRequest spec = .ok req ∧ req.json = spec.payload ∧
        g'.buildRequest spec' = .ok { req with headers := headers, json := spec'.payload } := by
  have hops : ∀ {ops ops' : Dict String OperationSpec}, List.Forall₂ (fun o o' => o'.1 = o.1 ∧
      ∃ headers, o'.2 = { o.2 with headerDefaults := headers } ∧
        policy.AgreeHeaders o.2.headerDefaults headers) ops ops' → ∀ name,
      (Dict.get? ops name = none ∧ Dict.get? ops' name = none) ∨ ∃ op headers,
        Dict.get? ops name = some op ∧
          Dict.get? ops' name = some { op with headerDefaults := headers } := by
    intro ops ops' hops name
    induction hops with
    | nil => exact .inl ⟨rfl,rfl⟩
    | @cons o o' ops ops' ho _ ih =>
      obtain ⟨k,op⟩ := o
      obtain ⟨k',op'⟩ := o'
      obtain ⟨hk,headers,hop,_⟩ := ho
      dsimp only at hk hop
      rw [hk, hop]
      by_cases hkey : k = name
      · exact .inr ⟨op,headers,by simp [Dict.get?, hkey],by simp [Dict.get?, hkey]⟩
      · simp only [Dict.get?, hkey, if_false]
        exact ih
  unfold TargetGateway.buildRequest TargetSpec.getCompiledOperation
  rw [halias, hparams]
  rcases hops h.spec.operations spec.operationAlias with ⟨hnone,hnone'⟩ | ⟨op,headers,hop,hop'⟩
  · rw [hnone, hnone']
    exact .inl ⟨_,rfl,rfl⟩
  · rw [hop, hop']
    simp only [Except.bind]
    unfold OperationSpec.build
    dsimp only [OperationSpec.pathParams, OperationSpec.renderPath]
    split
    · exact .inr ⟨_,headers,rfl,rfl,rfl⟩
    · exact .inl ⟨_,rfl,rfl⟩

end RedactionSpec

theorem headersValue_injective : Function.Injective headersValue := by
  intro a b h
  unfold headersValue at h
  have hmap := Value.dict.inj h
  apply List.map_injective_iff.mpr ?_ hmap
  intro x y hxy
  simp only [Prod.mk.injEq, Value.str.injEq] at hxy
  exact Prod.ext hxy.1 hxy.2

theorem headersValue_decimal (headers : Dict String String) : (headersValue headers).Decimal := by
  unfold headersValue
  rw [Value.Decimal]
  induction headers with
  | nil => trivial
  | cons h headers ih => exact ⟨trivial,ih⟩

/-- The end of a trace determines the headers and the text of the body. -/
theorem traceEnd_unique {headers headers' : Dict String String} {body body' : Value} {start : String}
    (h : start ++ " headers=" ++ (headersValue headers).dumps ++ " body=" ++ body.dumps =
      start ++ " headers=" ++ (headersValue headers').dumps ++ " body=" ++ body'.dumps) :
    headers = headers' ∧ body.dumps = body'.dumps := by
  have hlist := congrArg String.toList h
  simp only [String.toList_append, List.append_assoc, List.append_cancel_left_eq] at hlist
  have hchars (v : Value) : v.dumps.toList = v.jsonChars := String.toList_ofList
  simp only [hchars] at hlist
  have hspace {r : List Char} : Ends Value.inNumber (" body=".toList ++ r) :=
    Value.ends_of_cons rfl
  obtain ⟨hheaders,hbody⟩ := Value.jsonChars_unique _ (headersValue_decimal headers)
    (headersValue_decimal headers') hspace hspace hlist
  refine ⟨headersValue_injective hheaders,?_⟩
  apply String.toList_injective
  rw [hchars, hchars]
  exact List.append_cancel_left hbody


/-- Two observations are told apart by what is emitted exactly when other things went over the
wire. -/
def Observation.ToldApart (o o' : Observation) : Prop :=
  (o.output = o'.output ∧ o.errorDetails = o'.errorDetails) ↔ o.exchanges = o'.exchanges

namespace Observation

theorem toldApart_refl (o : Observation) : ToldApart o o :=
  iff_of_true ⟨rfl,rfl⟩ rfl

theorem ToldApart.logged {o o' : Observation} (h : ToldApart o o') (record : List Emitted) :
    ToldApart (logged record o) (logged record o') := by
  unfold ToldApart Observation.logged errorDetails at *
  rw [← h, List.append_cancel_left_eq]

theorem ToldApart.exchanged {o o' : Observation} (h : ToldApart o o') (req : HttpRequest)
    (reply : Reply) : ToldApart (exchanged req reply o) (exchanged req reply o') := by
  unfold ToldApart Observation.exchanged errorDetails at *
  rw [h, List.cons.injEq, eq_self, true_and]

end Observation

namespace TargetGateway

variable {t : HttpTransport} {g g' : TargetGateway} {policy : RedactionSpec}

/-- The lines of an attempt determine what was sent and what came back. -/
theorem exchange_of_traces {req : HttpRequest} {headers : Dict String String} {body : Value}
    {reply reply' : Reply} {rest rest' : List Emitted}
    (hbody : req.json.dumps = body.dumps → req.json = body)
    (hreply : policy.AgreeReplies t reply reply')
    (h : t.traces req reply ++ rest =
      t.traces { req with headers := headers, json := body } reply' ++ rest') :
    req = { req with headers := headers, json := body } ∧ reply = reply' := by
  obtain ⟨hline,hrest⟩ := List.cons.inj h
  obtain ⟨hheaders,hdumps⟩ := traceEnd_unique (Emitted.stdout.inj hline)
  refine ⟨?_,?_⟩
  · dsimp only at hheaders hdumps
    rw [← hheaders, ← hbody hdumps]
  cases reply with
  | response r =>
    cases reply' with
    | response r' =>
      obtain ⟨hstatus,_,htext⟩ := hreply
      have hline := Emitted.stdout.inj (List.cons.inj hrest).1
      dsimp only at hline
      rw [hstatus] at hline
      obtain ⟨hheaders,hdumps⟩ := traceEnd_unique hline
      have hsame : r.text = r'.text := by
        rcases htext with hsame | ⟨hne,hne',v,w,hv,hw,hvw,_⟩
        · exact hsame
        · have hbody : (t.parseBody r.text).1 = v := by
            rw [HttpTransport.parseBody, if_neg hne, hv]
            rfl
          have hbody' : (t.parseBody r'.text).1 = w := by
            rw [HttpTransport.parseBody, if_neg hne', hw]
            rfl
          rw [hbody, hbody'] at hdumps
          exact absurd (Value.dumps_injective (t.decimals _ _ hv) (t.decimals _ _ hw) hdumps) hvw
      obtain ⟨status,hs,text⟩ := r
      obtain ⟨status',hs',text'⟩ := r'
      dsimp only at hstatus hheaders hsame
      rw [hstatus, hheaders, hsame]
    | networkError m => cases hreply
    | raised exc => cases hreply
  | networkError m =>
    cases reply' with
    | response r' => cases hreply
    | networkError m' => exact hreply
    | raised exc => cases hreply
  | raised exc =>
    cases reply' with
    | response r' => cases hreply
    | networkError m' => cases hreply
    | raised exc' => exact hreply

variable {replies replies' : Nat → Reply} {world : TargetWorld}

theorem observeAttempt_toldApart (hg : policy.AgreeGateways g g')
    (hreplies : ∀ n, policy.AgreeReplies t (replies n) (replies' n))
    {settle settle' : Fault → GatewayState → Observation} {spec spec' : RequestSpec}
    (halias : spec'.operationAlias = spec.operationAlias)
    (hparams : spec'.operationParams = spec.operationParams)
    (hpayload : spec.payload.dumps = spec'.payload.dumps → spec.payload = spec'.payload)
    (hsettle : spec = spec' → ∀ fault st,
      Observation.ToldApart (settle fault st) (settle' fault st)) (st : GatewayState) :
    Observation.ToldApart (observeAttempt t g replies settle spec st)
      (observeAttempt t g' replies' settle' spec' st) := by
  unfold observeAttempt
  rcases hg.buildRequest_cases halias hparams with ⟨exc,hreq,hreq'⟩ | ⟨req,headers,hreq,hjson,hreq'⟩
  · rw [hreq, hreq']
    exact Observation.toldApart_refl _
  rw [hreq, hreq']
  dsimp only
  by_cases hsame : req = { req with headers := headers, json := spec'.payload } ∧
      replies st.requests = replies' st.requests
  · -- the same is sent and comes back: both go on from the same request
    obtain ⟨hsent,hback⟩ := hsame
    have hspec : spec = spec' := by
      have hp : spec.payload = spec'.payload := by
        rw [← hjson, hsent]
      obtain ⟨name,payload,params,_,_⟩ := spec
      obtain ⟨name',payload',params',_,_⟩ := spec'
      dsimp only at halias hparams hp
      subst halias hparams hp
      rfl
    rw [← hsent, ← hback, hg.spec.faultOf_eq]
    apply Observation.ToldApart.exchanged
    apply Observation.ToldApart.logged
    split
    · rename_i hnone
      have hconclude : g'.conclude (t.answer req (replies st.requests)) st.requested =
          g.conclude (t.answer req (replies st.requests)) st.requested := by
        unfold conclude
        cases t.answer req (replies st.requests) with
        | response resp =>
          dsimp only
          rw [TargetSpec.executeSuccess, TargetSpec.executeSuccess, hg.spec.safeBody_eq]
        | driverError exc =>
          dsimp only
          rw [hg.spec.faultOfError_eq]
        | raised exc => rfl
      rw [hconclude]
      exact Observation.toldApart_refl _
    · rename_i fault hfault
      have hlog : g'.logResponseError (t.answer req (replies st.requests)) fault.kind =
          g.logResponseError (t.answer req (replies st.requests)) fault.kind := by
        unfold logResponseError
        cases t.answer req (replies st.requests) with
        | response resp =>
          dsimp only
          rw [hg.spec.safeBody_eq]
        | driverError exc => rfl
        | raised exc => rfl
      rw [hlog]
      exact (hsettle hspec fault st.requested).logged _
  · constructor
    · intro h
      refine absurd ?_ hsame
      apply exchange_of_traces (fun hd => ?_) (hreplies st.requests) h.1
      rw [hjson] at hd ⊢
      exact hpayload hd
    · intro h
      have hhead := Prod.mk.inj (List.cons.inj h).1
      exact absurd hhead hsame

theorem observeRetry_toldApart (hg : policy.AgreeGateways g g')
    {again again' : RequestSpec → GatewayState → Observation} (n : Nat) (fault : Fault)
    (spec : RequestSpec) (st : GatewayState)
    (hagain : ∀ next st, Observation.ToldApart (again next st) (again' next st)) :
    Observation.ToldApart (observeRetry t g world again n fault spec st)
      (observeRetry t g' world again' n fault spec st) := by
  have hnext : g'.nextAttempt world fault spec st = g.nextAttempt world fault spec st := by
    unfold nextAttempt applyMutation
    rw [hg.mutations]
  have hdebug : g'.debugRetry t fault n = g.debugRetry t fault n := by
    unfold debugRetry
    rw [hg.engine, hg.spec.maxAttempts]
  unfold observeRetry
  rw [hnext, hg.engine, hdebug]
  split
  · exact Observation.toldApart_refl _
  · split
    · exact Observation.toldApart_refl _
    · exact (hagain _ _).logged _

theorem observeAttempts_toldApart (hg : policy.AgreeGateways g g')
    (hreplies : ∀ n, policy.AgreeReplies t (replies n) (replies' n)) (left : Nat)
    {spec spec' : RequestSpec} (halias : spec'.operationAlias = spec.operationAlias)
    (hparams : spec'.operationParams = spec.operationParams)
    (hpayload : spec.payload.dumps = spec'.payload.dumps → spec.payload = spec'.payload)
    (st : GatewayState) :
    Observation.ToldApart (observeAttempts t g replies world left spec st)
      (observeAttempts t g' replies' world left spec' st) := by
  induction left generalizing spec spec' st with
  | zero =>
    apply observeAttempt_toldApart hg hreplies halias hparams hpayload
    intro _ fault st
    exact Observation.toldApart_refl _
  | succ left ih =>
    apply observeAttempt_toldApart hg hreplies halias hparams hpayload
    intro hspec fault st
    by_cases hretried : isRetried fault = true
    · rw [if_pos hretried, if_pos hretried, hspec, hg.spec.maxAttempts]
      apply observeRetry_toldApart hg
      intro next st
      exact ih rfl rfl (fun _ => rfl) st
    · rw [if_neg hretried, if_neg hretried]
      exact Observation.toldApart_refl _

/-- One attempt is observed as it is executed where what settles its fault is. -/
theorem observeAttempt_eq {settle : Fault → GatewayState → Execution}
    {settle' : Fault → GatewayState → Observation} {spec : RequestSpec} {st : GatewayState}
    (hworld : ∀ call ∈ (g.attempt world settle spec st).calls,
      call.answer = t.answer call.request (replies call.number))
    (hsettle : ∀ fault st, (∀ call ∈ (settle fault st).calls,
        call.answer = t.answer call.request (replies call.number)) →
      (settle' fault st).result = (settle fault st).result ∧ (settle' fault st).exchanges =
        (settle fault st).calls.map fun call => (call.request,replies call.number)) :
    (observeAttempt t g replies settle' spec st).result =
        (g.attempt world settle spec st).result ∧
      (observeAttempt t g replies settle' spec st).exchanges =
        (g.attempt world settle spec st).calls.map fun call =>
          (call.request,replies call.number) := by
  unfold observeAttempt
  unfold attempt at hworld ⊢
  cases hreq : g.buildRequest spec with
  | error exc =>
    dsimp only
    refine ⟨rfl,?_⟩
    unfold buildFailed
    split <;> rfl
  | ok req =>
    simp only [hreq] at hworld ⊢
    have hanswer : world.answers st.requests = t.answer req (replies st.requests) :=
      hworld _ List.mem_cons_self
    rw [← hanswer]
    cases hfault : g.spec.faultOf (world.answers st.requests) with
    | none =>
      dsimp only
      have hcalls : (g.conclude (world.answers st.requests) st.requested).calls = [] := by
        unfold conclude
        cases world.answers st.requests <;> rfl
      refine ⟨rfl,?_⟩
      rw [Execution.after, hcalls]
      rfl
    | some fault =>
      simp only [hfault] at hworld
      obtain ⟨hresult,hexchanges⟩ := hsettle fault st.requested fun call hcall =>
        hworld call (List.mem_cons_of_mem _ hcall)
      refine ⟨hresult,?_⟩
      rw [Execution.after, List.map_cons, ← hexchanges]
      rfl

/-- The observation is one of the gateway's execution in a world that answers as the transport
does: the same result, after the same calls. -/
theorem observeAttempts_eq (left : Nat) (spec : RequestSpec) (st : GatewayState)
    (hworld : ∀ call ∈ (g.attempts world left spec st).calls,
      call.answer = t.answer call.request (replies call.number)) :
    (observeAttempts t g replies world left spec st).result =
        (g.attempts world left spec st).result ∧
      (observeAttempts t g replies world left spec st).exchanges =
        (g.attempts world left spec st).calls.map fun call =>
          (call.request,replies call.number) := by
  induction left generalizing spec st with
  | zero =>
    apply observeAttempt_eq hworld
    intro fault st _
    exact ⟨rfl,rfl⟩
  | succ left ih =>
    apply observeAttempt_eq hworld
    intro fault st hcalls
    by_cases hretried : isRetried fault = true
    · simp only [hretried, if_true] at hcalls ⊢
      unfold observeRetry
      unfold resend at hcalls ⊢
      cases hnext : g.nextAttempt world fault spec st with
      | error exc =>
        dsimp only
        refine ⟨rfl,?_⟩
        unfold retryRaised
        split <;> rfl
      | ok next =>
        obtain ⟨next,st'⟩ := next
        cases hwait : g.engine.waitFor fault.action.directive fault.retryAfterS
            (g.spec.maxAttempts - left) with
        | error exc =>
          dsimp only
          refine ⟨rfl,?_⟩
          unfold retryRaised
          split <;> rfl
        | ok u =>
          simp only [hnext, hwait] at hcalls ⊢
          exact ih next st'.retried hcalls
    · simp only [hretried] at hcalls ⊢
      exact ⟨rfl,rfl⟩

section Samples

def declaredSecrets : RedactionSpec :=
  { forbiddenMetadataKeys := ["authorization", "cookie", "set-cookie", "x-api-key",
      "x-ankey-password"]
    forbiddenFields := ["password", "token", "secret", "api_key"] }

def tokenValue (token : String) : Value := .dict [("token",.str token)]

/-- A target whose answers hold a token. -/
def tokenTransport : HttpTransport :=
  { loads := fun text =>
      if text = "\x7b\"token\": \"one\"\x7d" then some (tokenValue "one")
      else if text = "\x7b\"token\": \"two\"\x7d" then some (tokenValue "two")
      else none
    errorReason := fun _ _ => none
    reader := wholeSeconds
    roundMillis := id
    decimals := by
      intro text v h
      split at h
      · cases h
        exact ⟨trivial,trivial⟩
      · split at h
        · cases h
          exact ⟨trivial,trivial⟩
        · cases h }

def refusedWith (text : String) : Nat → Reply := fun _ => .response ⟨400,[],text⟩

def signUp (password : String) : RequestSpec :=
  { ping with payload := .dict [("password",.str password)] }

def observeSignUp (password text : String) : Observation :=
  observe tokenTransport throttledGateway (refusedWith text) (throttledWorld "1") (signUp password)
    ⟨0,0,0,0⟩

theorem agreeGateways_self (policy : RedactionSpec) (g : TargetGateway)
    (h : ∀ o ∈ g.spec.operations, o.2.headerDefaults = []) : policy.AgreeGateways g g where
  engine := rfl
  mutations := rfl
  spec := by
    refine ⟨rfl,rfl,rfl,rfl,rfl,rfl,?_⟩
    apply List.forall₂_same.mpr
    intro o ho
    refine ⟨rfl,o.2.headerDefaults,rfl,?_⟩
    rw [h o ho]
    exact .nil

theorem agreeRequests_signUp (password password' : String) :
    declaredSecrets.AgreeRequests (signUp password) (signUp password') where
  operationAlias := rfl
  operationParams := rfl
  payload := ⟨rfl,.inl (by decide),trivial⟩
  decimal := ⟨trivial,trivial⟩
  decimal' := ⟨trivial,trivial⟩

theorem agreeReplies_token (n : Nat) :
    declaredSecrets.AgreeReplies tokenTransport (refusedWith "\x7b\"token\": \"one\"\x7d" n)
      (refusedWith "\x7b\"token\": \"two\"\x7d" n) where
  statusCode := rfl
  headers := .nil
  text := .inr ⟨by decide,by decide,tokenValue "one",tokenValue "two",by decide,
    by decide,by decide,⟨rfl,.inl (by decide),trivial⟩⟩

end Samples

end TargetGateway
end NexusEtl
