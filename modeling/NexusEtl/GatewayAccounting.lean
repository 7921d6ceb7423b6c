import NexusEtl.Gateway
import Mathlib.Algebra.Order.Ring.Unbundled.Rat

/-!
# What one execution costs

The gateway promises to return for whatever the driver does, to stay within its
budget of retries, and to count requests, retries and failures. The steps between
two driver calls (the mutation, the wait and the next request) decide whether it does.
-/

set_option autoImplicit false

namespace NexusEtl
open NexusEtl.Library

/-- How the platform reads the value of a header: as a number, or as the seconds until a date. -/
structure RetryAfterReader where
  number : String → Option Delay
  secondsUntil : String → Option Rat

namespace Delay

/-- `seconds >= 0` -/
def isNonnegative : Delay → Bool
  | .seconds q => decide (0 ≤ q)
  | .infinite => true
  | .notANumber => false

end Delay

/-- `_parse_retry_after` -/
def parseRetryAfter (reader : RetryAfterReader) (value : Option String) : Option Delay :=
  match value.map Text.strip with
  | none => none
  | some candidate =>
    if candidate = "" then none
    else match reader.number candidate with
      | some seconds => if seconds.isNonnegative then some seconds else none
      | none => (reader.secondsUntil candidate).map fun delta => .seconds (max 0 delta)

namespace TargetGateway

variable (g : TargetGateway) (world : TargetWorld)

/-- What an execution promises from a state on, with a budget of retries. -/
structure Accounted (budget : Nat) (st : GatewayState) (e : Execution) : Prop where
  returns : ∃ r, e.result = .ok r ∧
    (r.ok = true ↔ ∃ call, e.calls.getLast? = some call ∧ call.answer.ok = true) ∧
    e.state.failures = st.failures + if r.ok then 0 else 1
  bounded : e.calls.length ≤ 1 + budget
  repeats : ∀ call ∈ e.calls.dropLast, call.answer.ok = false ∧
    ∃ fault, g.spec.faultOf call.answer = some fault ∧ isRetried fault = true
  requests : e.state.requests = st.requests + e.calls.length
  retries : e.state.retries = st.retries + (e.calls.length - 1)

/-- A retry that the loop comes to: the fault, the request that it answers and the state. -/
structure RetryStep where
  fault : Fault
  spec : RequestSpec
  state : GatewayState
  retriesUsed : Nat

/-- The retries that the loop comes to, by the number of retries that are left. -/
def retrySteps : Nat → RequestSpec → GatewayState → List RetryStep
  | 0, _, _ => []
  | left+1, spec, st =>
    match g.buildRequest spec with
    | .error _ => []
    | .ok _ => match (g.spec.faultOf (world.answers st.requests)).filter isRetried with
      | none => []
      | some fault =>
        ⟨fault,spec,st.requested,g.spec.maxAttempts - left⟩::
          match g.nextAttempt world fault spec st.requested with
          | .error _ => []
          | .ok (next,st') =>
            match g.engine.waitFor fault.action.directive fault.retryAfterS
                (g.spec.maxAttempts - left) with
            | .error _ => []
            | .ok () => retrySteps left next st'.retried

/-- The mutation refuses the request by a `ValueError`, or it succeeds, the platform waits as
long as it is asked to, and the next request can be built. -/
def RetryStep.Regular (step : RetryStep) : Prop :=
  match g.nextAttempt world step.fault step.spec step.state with
  | .error exc => exc.isValueError = true
  | .ok (next,_) =>
    g.engine.waitFor step.fault.action.directive step.fault.retryAfterS step.retriesUsed = .ok () ∧
      ∃ request, g.buildRequest next = .ok request

variable {g world}

/-- A call that ends without another driver call. -/
theorem accounted_once {budget : Nat} {st : GatewayState} {e : Execution} {call : DriverCall}
    {r : ExecutionResult} (hr : e.result = .ok r) (hok : r.ok = call.answer.ok)
    (hcalls : e.calls = [call]) (hrequests : e.state.requests = st.requests + 1)
    (hretries : e.state.retries = st.retries)
    (hfailures : e.state.failures = st.failures + if r.ok then 0 else 1) :
    Accounted g budget st e where
  returns := ⟨r,hr,by simp [hok, hcalls],hfailures⟩
  bounded := by
    rw [hcalls, List.length_singleton]
    omega
  repeats := by simp [hcalls]
  requests := by rw [hcalls, hrequests, List.length_singleton]
  retries := by rw [hcalls, hretries]; rfl

theorem accounted_buildFailed (budget : Nat) (exc : PyException) (st : GatewayState) :
    Accounted g budget st (buildFailed exc st) := by
  have hbuild : ∃ r, buildFailed exc st = ⟨.ok r,st.failed,[]⟩ ∧ r.ok = false := by
    unfold buildFailed
    split
    · exact ⟨_,rfl,rfl⟩
    · exact ⟨_,rfl,rfl⟩
  obtain ⟨r,he,hok⟩ := hbuild
  rw [he]
  exact ⟨⟨r,rfl,by simp [hok],by simp [hok, GatewayState.failed]⟩,by simp,by simp,rfl,rfl⟩

theorem accounted_conclude (budget : Nat) {spec : RequestSpec} {request : HttpRequest}
    {answer : Answer} {st : GatewayState} (h : g.spec.faultOf answer = none) :
    Accounted g budget st
      (Execution.after ⟨st.requests,spec,request,answer⟩ (g.conclude answer st.requested)) := by
  cases answer with
  | response resp =>
    have hok : resp.ok = true := by simpa [TargetSpec.faultOf] using h
    refine accounted_once rfl ?_ rfl rfl rfl rfl
    exact hok.symm
  | driverError exc => cases h
  | raised exc => exact accounted_once rfl rfl rfl rfl rfl rfl

theorem accounted_giveUp (budget : Nat) {spec : RequestSpec} {request : HttpRequest}
    {answer : Answer} {fault : Fault} {st : GatewayState}
    (h : g.spec.faultOf answer = some fault) :
    Accounted g budget st
      (Execution.after ⟨st.requests,spec,request,answer⟩ (giveUp fault st.requested)) := by
  have hresult := fault_result answer h
  refine accounted_once rfl (hresult.trans (faultOf_ok h).symm) rfl rfl rfl ?_
  rw [hresult]
  rfl

/-- A mutation changes no counter. -/
theorem nextAttempt_counters {fault : Fault} {spec next : RequestSpec} {st st' : GatewayState}
    (h : g.nextAttempt world fault spec st = .ok (next,st')) :
    st'.requests = st.requests ∧ st'.retries = st.retries ∧ st'.failures = st.failures := by
  unfold nextAttempt at h
  split at h
  · cases h
    exact ⟨rfl,rfl,rfl⟩
  · unfold applyMutation at h
    split at h
    · cases h
    · rename_i mutate _
      cases hm : mutate (world.uuids st.draws) spec with
      | error exc =>
        rw [hm] at h
        cases h
      | ok next' =>
        rw [hm] at h
        cases h
        exact ⟨rfl,rfl,rfl⟩

/-- A retry whose mutation raises. -/
theorem accounted_refusedMutation (budget : Nat) {call : DriverCall} {exc : PyException}
    {st : GatewayState} (hanswer : call.answer.ok = false) :
    Accounted g budget st (Execution.after call (retryRaised exc st.requested)) ↔
      exc.isValueError = true := by
  unfold retryRaised
  by_cases hexc : exc.isValueError = true
  · rw [if_pos hexc]
    exact ⟨fun _ => hexc,fun _ => accounted_once rfl hanswer.symm rfl rfl rfl rfl⟩
  · rw [if_neg hexc]
    refine ⟨fun h => ?_,fun h => absurd h hexc⟩
    obtain ⟨r,hr,_⟩ := h.returns
    cases hr

/-- A retry that was counted and is not followed by a driver call. -/
theorem not_accounted_of_noCall {budget : Nat} {call : DriverCall} {e : Execution}
    {st : GatewayState} (hcalls : e.calls = [])
    (hretries : ∀ r, e.result = .ok r → e.state.retries = st.retries + 1) :
    ¬ Accounted g budget st (Execution.after call e) := by
  intro h
  obtain ⟨r,hr,_⟩ := h.returns
  have hcount := h.retries
  rw [Execution.after, hcalls, List.length_singleton] at hcount
  have hone := hretries r hr
  dsimp only at hcount
  omega

/-- A refused request before an execution with a driver call: both keep the promises or none. -/
theorem accounted_resent {budget : Nat} {call : DriverCall} {fault : Fault} {e : Execution}
    {st st' : GatewayState} (hfault : g.spec.faultOf call.answer = some fault)
    (hretried : isRetried fault = true) (hcalls : e.calls ≠ [])
    (hrequests : st'.requests = st.requests + 1) (hretries : st'.retries = st.retries + 1)
    (hfailures : st'.failures = st.failures) :
    Accounted g (budget+1) st (Execution.after call e) ↔ Accounted g budget st' e := by
  obtain ⟨first,rest,hlist⟩ := List.exists_cons_of_ne_nil hcalls
  have hlast : (call::e.calls).getLast? = e.calls.getLast? := by
    rw [hlist, List.getLast?_cons_cons]
  have hdrop : (call::e.calls).dropLast = call::e.calls.dropLast := by
    rw [hlist]
    rfl
  have hlength : (call::e.calls).length = e.calls.length + 1 := rfl
  have hone : 1 ≤ e.calls.length := by
    rw [hlist, List.length_cons]
    omega
  unfold Execution.after
  constructor
  · intro h
    obtain ⟨r,hr,hok,hfail⟩ := h.returns
    have hbounded := h.bounded
    have hrequest := h.requests
    have hretry := h.retries
    dsimp only at hr hok hfail hbounded hrequest hretry
    rw [hlast] at hok
    rw [hlength] at hbounded hrequest hretry
    refine ⟨⟨r,hr,hok,by rw [hfailures]; exact hfail⟩,by omega,fun c hc => ?_,by omega,by omega⟩
    exact h.repeats c (by rw [hdrop]; exact List.mem_cons_of_mem _ hc)
  · intro h
    obtain ⟨r,hr,hok,hfail⟩ := h.returns
    have hbounded := h.bounded
    have hrequest := h.requests
    have hretry := h.retries
    refine ⟨⟨r,hr,by rw [hlast]; exact hok,by rw [hfail, hfailures]⟩,?_,fun c hc => ?_,?_,?_⟩
    · dsimp only
      omega
    · rw [hdrop] at hc
      rcases List.mem_cons.mp hc with rfl | hc
      · exact ⟨faultOf_ok hfault,fault,hfault,hretried⟩
      · exact h.repeats c hc
    · dsimp only
      omega
    · dsimp only
      omega

theorem attempts_built {left : Nat} {spec : RequestSpec} {st : GatewayState}
    {request : HttpRequest} (h : g.buildRequest spec = .ok request) :
    (g.attempts world left spec st).calls ≠ [] := by
  cases left with
  | zero => simp [attempts, attempt, h, Execution.after]
  | succ left => simp [attempts, attempt, h, Execution.after]

theorem attempts_unbuilt {left : Nat} {spec : RequestSpec} {st : GatewayState}
    {exc : PyException} (h : g.buildRequest spec = .error exc) :
    g.attempts world left spec st = buildFailed exc st := by
  cases left with
  | zero => simp [attempts, attempt, h]
  | succ left => simp [attempts, attempt, h]

theorem buildFailed_counters (exc : PyException) (st : GatewayState) :
    (buildFailed exc st).calls = [] ∧ (buildFailed exc st).state.retries = st.retries := by
  unfold buildFailed
  split <;> exact ⟨rfl,rfl⟩

theorem retryRaised_counters (exc : PyException) (st : GatewayState) :
    (retryRaised exc st).calls = [] ∧ (retryRaised exc st).state.retries = st.retries := by
  unfold retryRaised
  split <;> exact ⟨rfl,rfl⟩

/-- After a fault that is retried, the promises are kept exactly when the retry is regular and
the execution from the next request on keeps them. -/
theorem resend_accounted_iff {left used : Nat} {spec : RequestSpec} {request : HttpRequest}
    {fault : Fault} {st : GatewayState}
    (hf : g.spec.faultOf (world.answers st.requests) = some fault)
    (hr : isRetried fault = true) :
    Accounted g (left+1) st
        (Execution.after ⟨st.requests,spec,request,world.answers st.requests⟩
          (g.resend world (g.attempts world left) used fault spec st.requested)) ↔
      RetryStep.Regular g world ⟨fault,spec,st.requested,used⟩ ∧
        ∀ next st', g.nextAttempt world fault spec st.requested = .ok (next,st') →
          g.engine.waitFor fault.action.directive fault.retryAfterS used = .ok () →
          Accounted g left st'.retried (g.attempts world left next st'.retried) := by
  unfold RetryStep.Regular resend
  dsimp only
  cases hn : g.nextAttempt world fault spec st.requested with
  | error exc =>
    dsimp only
    rw [accounted_refusedMutation (left+1) (faultOf_ok hf)]
    exact ⟨fun h => ⟨h,fun _ _ hok => by cases hok⟩,fun h => h.1⟩
  | ok made =>
    obtain ⟨next,st'⟩ := made
    obtain ⟨hrequests,hretries,hfailures⟩ := nextAttempt_counters hn
    have hcounted : st'.retried.retries = st.retries + 1 := congrArg (· + 1) hretries
    dsimp only
    cases hw : g.engine.waitFor fault.action.directive fault.retryAfterS used with
    | error exc =>
      dsimp only
      refine ⟨fun h => absurd h ?_,fun h => by cases h.1.1⟩
      exact not_accounted_of_noCall (retryRaised_counters exc st'.retried).1
        fun _ _ => (retryRaised_counters exc st'.retried).2.trans hcounted
    | ok _ =>
      dsimp only
      cases hb : g.buildRequest next with
      | error exc =>
        rw [attempts_unbuilt hb]
        refine ⟨fun h => absurd h ?_,fun h => by obtain ⟨_,_,h⟩ := h.1; cases h⟩
        exact not_accounted_of_noCall (buildFailed_counters exc st'.retried).1
          fun _ _ => (buildFailed_counters exc st'.retried).2.trans hcounted
      | ok request' =>
        have hrest : Accounted g (left+1) st (Execution.after
              ⟨st.requests,spec,request,world.answers st.requests⟩
              (g.attempts world left next st'.retried)) ↔
            Accounted g left st'.retried (g.attempts world left next st'.retried) :=
          accounted_resent hf hr (attempts_built hb) hrequests hcounted hfailures
        rw [hrest]
        constructor
        · intro h
          refine ⟨⟨rfl,request',rfl⟩,fun next' st'' hok _ => ?_⟩
          cases hok
          exact h
        · exact fun h => h.2 next st' rfl rfl

/-- The loop keeps its promises exactly when each retry that it comes to is regular. -/
theorem attempts_accounted_iff (left : Nat) (spec : RequestSpec) (st : GatewayState) :
    Accounted g left st (g.attempts world left spec st) ↔
      ∀ step ∈ retrySteps g world left spec st, RetryStep.Regular g world step := by
  induction left generalizing spec st with
  | zero =>
    refine ⟨fun _ step h => absurd h List.not_mem_nil,fun _ => ?_⟩
    cases hb : g.buildRequest spec with
    | error exc =>
      rw [attempts_unbuilt hb]
      exact accounted_buildFailed 0 exc st
    | ok request =>
      rw [attempts, attempt, hb]
      dsimp only
      cases hf : g.spec.faultOf (world.answers st.requests) with
      | none => exact accounted_conclude 0 hf
      | some fault => exact accounted_giveUp 0 hf
  | succ left ih =>
    cases hb : g.buildRequest spec with
    | error exc =>
      rw [attempts_unbuilt hb, retrySteps, hb]
      exact ⟨fun _ step h => absurd h List.not_mem_nil,
        fun _ => accounted_buildFailed (left+1) exc st⟩
    | ok request =>
      rw [attempts, attempt, retrySteps, hb]
      dsimp only
      cases hf : g.spec.faultOf (world.answers st.requests) with
      | none =>
        exact ⟨fun _ step h => absurd h List.not_mem_nil,fun _ => accounted_conclude (left+1) hf⟩
      | some fault =>
        by_cases hr : isRetried fault = true
        · have hfilter : (some fault).filter isRetried = some fault := Option.filter_some_pos hr
          rw [hfilter]
          dsimp only
          rw [if_pos hr, List.forall_mem_cons, resend_accounted_iff hf hr]
          apply and_congr_right'
          cases hn : g.nextAttempt world fault spec st.requested with
          | error exc =>
            exact ⟨fun _ step h => absurd h List.not_mem_nil,fun _ _ _ hok => by cases hok⟩
          | ok made =>
            obtain ⟨next,st'⟩ := made
            dsimp only
            cases hw : g.engine.waitFor fault.action.directive fault.retryAfterS
                (g.spec.maxAttempts - left) with
            | error exc =>
              exact ⟨fun _ step h => absurd h List.not_mem_nil,fun _ _ _ _ hok => by cases hok⟩
            | ok _ =>
              dsimp only
              rw [← ih next st'.retried]
              constructor
              · exact fun h => h next st' rfl rfl
              · intro h next' st'' hok _
                cases hok
                exact h
        · have hfilter : (some fault).filter isRetried = none :=
            Option.filter_some_neg (Bool.eq_false_of_not_eq_true hr)
          rw [hfilter]
          dsimp only
          rw [if_neg hr]
          exact ⟨fun _ step h => absurd h List.not_mem_nil,fun _ => accounted_giveUp (left+1) hf⟩

variable (g world)

/-- The retries that an execution comes to; without the capability there are none. -/
def executeRetries (spec : RequestSpec) (st : GatewayState) : List RetryStep :=
  match g.spec.requireCapability .execute with
  | .error _ => []
  | .ok () => retrySteps g world g.spec.maxAttempts spec st

/-- An execution keeps all of its promises exactly when each retry that it comes to is regular:
it waits, and the request that its mutation leaves can be built. -/
theorem execute_accounted_iff (spec : RequestSpec) (st : GatewayState) :
    Accounted g g.spec.maxAttempts st (g.execute world spec st) ↔
      ∀ step ∈ executeRetries g world spec st, RetryStep.Regular g world step := by
  unfold execute executeRetries
  cases g.spec.requireCapability .execute with
  | error exc =>
    refine ⟨fun _ step h => absurd h List.not_mem_nil,fun _ => ?_⟩
    exact ⟨⟨_,rfl,by simp [TargetSpec.specError, TargetSpec.failure],rfl⟩,by simp,by simp,rfl,rfl⟩
  | ok _ => exact attempts_accounted_iff g.spec.maxAttempts spec st

section Samples

def pingOperation : OperationSpec :=
  { operationAlias := "users.ping", expectedStatuses := [200], method := "GET"
    pathTemplate := [.text "/users"], queryDefaults := [], headerDefaults := [] }

/-- A target that is asked again when it answers 429, after the time that it names. -/
def throttledTarget : TargetSpec :=
  { targetType := "ankey"
    capabilities := [.check, .execute]
    faultRules := [⟨.throttle,some 429,none,none,by decide,by decide,by decide⟩]
    retryRules := [⟨.retryAfter,some .throttle,none,none,none,by decide,by decide,
      by decide⟩]
    maxAttempts := 1
    bodyMode := .truncated
    healthAlias := "users.ping"
    operations := [("users.ping",pingOperation)]
    checked := by decide
    healthDeclared := by decide
    aliasKeys := by decide }

/-- The clock of the platform counts nanoseconds in 64 bits. -/
def sleepWithin (delay : Delay) : Except PyException Unit :=
  let fits := match delay with
    | .seconds q => decide (0 ≤ q ∧ q ≤ 9223372036)
    | _ => false
  if fits then .ok ()
  else .error ⟨"OverflowError","timestamp too large to convert to C PyTime_t"⟩

def throttledGateway : TargetGateway := ⟨throttledTarget,⟨fun _ => .seconds 0,sleepWithin⟩,[]⟩

def wholeSeconds : RetryAfterReader :=
  ⟨fun text => (Text.parseInt text).map fun n => .seconds n,fun _ => none⟩

/-- Too many requests, with the time to wait in a header. -/
def throttledWorld (retryAfter : String) : TargetWorld :=
  { answers := fun _ => .response ⟨false,.int 429,.null,none,.none,none,
      parseRetryAfter wholeSeconds (some retryAfter)⟩
    assigns := fun _ => "", uuids := fun _ => "" }

def ping : RequestSpec := ⟨"users.ping",.null,none,by decide,by decide⟩

/-- The target asks for a wait that no clock can hold, and the exception of the platform
leaves the gateway. -/
theorem wait_too_long_escapes :
    (throttledGateway.execute (throttledWorld "99999999999") ping ⟨0,0,0,0⟩).result =
      .error ⟨"OverflowError","timestamp too large to convert to C PyTime_t"⟩ ∧
    ¬ Accounted throttledGateway 1 ⟨0,0,0,0⟩
      (throttledGateway.execute (throttledWorld "99999999999") ping ⟨0,0,0,0⟩) := by
  have hescapes : (throttledGateway.execute (throttledWorld "99999999999") ping ⟨0,0,0,0⟩).result =
      .error ⟨"OverflowError","timestamp too large to convert to C PyTime_t"⟩ := by
    decide
  refine ⟨hescapes,fun h => ?_⟩
  obtain ⟨r,hr,_⟩ := h.returns
  rw [hescapes] at hr
  cases hr

example : (throttledGateway.execute (throttledWorld "3") ping ⟨0,0,0,0⟩).state = ⟨2,1,1,0⟩ := by
  decide

end Samples

end TargetGateway
end NexusEtl
