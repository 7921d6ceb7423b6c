import NexusEtl.GatewayAccounting
import NexusEtl.Library.Paging

/-!
# Reading a target in pages

The driver asks for one page after the other until a page is empty or not full.
The gateway hands the pages on; a failure before the first page may start the
driver anew, a failure after it ends the stream with one page that says so.
-/

set_option autoImplicit false

namespace NexusEtl
open NexusEtl.Library

/-- One attempt of the transport, as the normalizer leaves it. -/
structure HttpNormalizedOutcome where
  statusCode : Option Int
  body : Value
  bodySnippet : Option String
  errorCode : Option String
  errorMessage : Option String
  retryAfterS : Option Delay
  deriving DecidableEq, Repr

structure HttpPagingStrategy where
  buildPagedRequest : HttpRequest → Nat → Nat → HttpRequest
  extractItems : Value → Except PyException (List Value)

/-- The attempts of the transport in order, each with the request that it answers. -/
structure HttpDriver where
  requestOnce : Nat → HttpRequest → Except PyException HttpNormalizedOutcome
  paging : HttpPagingStrategy
  errorReason : Value → Option String → Option String

/-- What the driver makes of the answer for one page. -/
inductive PageAnswer
  | items (items : List Value)
  | driverError (exc : DriverError)
  | raised (exc : PyException)
  deriving DecidableEq, Repr

namespace Ankey

def itemsKeys : List String := ["items", "data", "users", "organizations", "orgs", "result"]

def buildPagedRequest (base : HttpRequest) (page batchSize : Nat) : HttpRequest :=
  let query := Dict.set (Dict.set base.query "page" (.int page)) "rows" (.int batchSize)
  { base with query := if Dict.contains query "_queryFilter" then query
      else Dict.set query "_queryFilter" (.str "true") }

def asList : Value → Option (List Value)
  | .list items => some items
  | _ => none

def extractItems (body : Value) : Except PyException (List Value) :=
  let found := match body with
    | .list items => some items
    | .dict fields => itemsKeys.findSome? fun key => (Dict.get? fields key).bind asList
    | _ => none
  match found with
  | some items => .ok items
  | none => .error ⟨"ValueError","Unexpected response format: no items array"⟩

def paging : HttpPagingStrategy := ⟨buildPagedRequest,extractItems⟩

end Ankey

namespace HttpDriver

variable (driver : HttpDriver)

def statusText (status : Option Int) : String :=
  match status with
  | some n => Value.pyStr (.int n)
  | none => "None"

def statusValue (status : Option Int) : Value :=
  match status with
  | some n => .int n
  | none => .null

/-- One round of `iter_batches`, up to the items of the page. -/
def fetchPage (attempt : Nat) (req : HttpRequest) (page batchSize : Nat) : PageAnswer :=
  match driver.requestOnce attempt (driver.paging.buildPagedRequest req page batchSize) with
  | .error exc => .raised exc
  | .ok outcome =>
    let reason := driver.errorReason outcome.body outcome.bodySnippet
    match outcome.errorCode with
    | some code => .driverError
        { message := (outcome.errorMessage.filter fun m => m ≠ "").getD code, code := code
          answerCode := statusValue outcome.statusCode, contentPreview := outcome.bodySnippet
          details := [], retryAfterS := outcome.retryAfterS, errorReason := reason }
    | none =>
      if !outcome.statusCode.any (req.expectedStatuses.contains ·) then .driverError
        { message := "target answer " ++ statusText outcome.statusCode
          code := "HTTP_" ++ statusText outcome.statusCode
          answerCode := statusValue outcome.statusCode, contentPreview := outcome.bodySnippet
          details := ((outcome.bodySnippet.filter fun s => s ≠ "").map fun s =>
            [("content_preview",Value.str s)]).getD []
          retryAfterS := outcome.retryAfterS, errorReason := reason }
      else match driver.paging.extractItems outcome.body with
        | .ok items => .items items
        | .error exc =>
          if exc.isValueError then .driverError
            { message := exc.text, code := "INVALID_ITEMS_FORMAT", answerCode := .null
              contentPreview := none, details := [], retryAfterS := none, errorReason := none }
          else .raised exc

end HttpDriver

structure TargetGateway.TargetPageResult where
  ok : Bool
  page : Nat
  items : Option (List Value)
  errorCode : Option SystemErrorCode
  errorMessage : Option String
  errorDetails : Option Fields
  deriving DecidableEq, Repr

/-- How the iteration ends: it returns, an exception escapes, or it goes on beyond the fuel. -/
inductive PageEnd
  | finished
  | raised (exc : PyException)
  | unfinished
  deriving DecidableEq, Repr

/-- The pages that are handed on, the pages that were asked for, and the counters. -/
structure PageRead where
  pages : List TargetGateway.TargetPageResult
  asked : List Nat
  ending : PageEnd
  state : GatewayState
  deriving DecidableEq, Repr

namespace PageRead

def after (page : Nat) (run : PageRead) : PageRead := { run with asked := page::run.asked }

def yield (result : TargetGateway.TargetPageResult) (run : PageRead) : PageRead :=
  { run with pages := result::run.pages }

end PageRead

/-- Where the reader stands: the attempts made, the page that the driver asks for next, the
retries used and the last page that was handed on. -/
structure ReadState where
  attempts : Nat
  page : Nat
  retriesUsed : Nat
  lastPage : Nat
  counters : GatewayState
  deriving DecidableEq, Repr

namespace TargetGateway

variable (g : TargetGateway) (driver : HttpDriver)

def okPage (page : Nat) (items : List Value) : TargetPageResult :=
  ⟨true,page,some (Sanitize.maskItems items),none,none,none⟩

def failPage (page : Nat) (code : SystemErrorCode) (text : String) (details : Option Fields) :
    TargetPageResult :=
  ⟨false,page,none,some code,some (Sanitize.truncateText text),details⟩

/-- The page that ends a stream. -/
def failRead (result : TargetPageResult) (counters : GatewayState) : PageRead :=
  ⟨[result],[],.finished,counters.failed⟩

/-- `_apply_read_retry` says whether the driver is started anew. -/
def retriesRead (fault : Fault) (s : ReadState) : Bool :=
  s.lastPage == 0 && isRetried fault && s.retriesUsed < g.spec.maxAttempts

/-- The loop of `iter_pages` with the loop of the driver inside it: a turn is one attempt. -/
def readLoop (req : HttpRequest) (size : Nat) (maxPages : Option Int) :
    Nat → ReadState → PageRead
  | 0, s => ⟨[],[],.unfinished,s.counters⟩
  | fuel+1, s =>
    if maxPages.any (· < (s.page : Int)) then ⟨[],[],.finished,s.counters⟩
    else .after s.page <| match driver.fetchPage s.attempts req s.page size with
      | .items items =>
        if items = [] then ⟨[],[],.finished,s.counters⟩
        else .yield (okPage s.page items) <|
          if items.length < size then ⟨[],[],.finished,s.counters.requested⟩
          else readLoop req size maxPages fuel
            ⟨s.attempts + 1,s.page + 1,s.retriesUsed,s.page,s.counters.requested⟩
      | .driverError exc =>
        let fault := g.spec.faultOfError exc
        if g.retriesRead fault s then
          match g.engine.waitFor fault.action.directive fault.retryAfterS (s.retriesUsed + 1) with
          | .error raised => ⟨[],[],.raised raised,s.counters.retried⟩
          | .ok () => readLoop req size maxPages fuel
              ⟨s.attempts + 1,1,s.retriesUsed + 1,s.lastPage,s.counters.retried⟩
        else failRead (failPage s.lastPage (systemErrorCode fault.kind) exc.message
          (g.spec.buildExcDetails exc fault.action)) s.counters
      | .raised exc => failRead (failPage s.lastPage .infraUnavailable exc.text none) s.counters

/-- The request of a read: the parameters of the call go into its query. -/
def readRequest (operationAlias : String) (params : Option Fields) :
    Except PyException HttpRequest :=
  (g.spec.requireCapability .readPaged).bind fun _ =>
    (g.spec.getCompiledOperation operationAlias).bind fun op =>
      (op.build none .null).map fun req =>
        { req with query := Dict.update req.query (params.getD []) }

def iterPages (operationAlias : String) (size : Nat) (maxPages : Option Int)
    (params : Option Fields) (fuel : Nat) (counters : GatewayState) : PageRead :=
  match g.readRequest operationAlias params with
  | .error exc => failRead (failPage 0
      (if exc.isValueError then systemErrorCode .spec else .infraUnavailable) exc.text none) counters
  | .ok req => g.readLoop driver req size maxPages fuel ⟨0,1,0,0,counters⟩

/-- The retries that the loop comes to while no page was handed on, by the retries left: the
fault and the number of the retry. -/
def readWaits (req : HttpRequest) (size : Nat) : Nat → Nat → List (Fault × Nat)
  | 0, _ => []
  | left+1, attempt =>
    match driver.fetchPage attempt req 1 size with
    | .driverError exc =>
      if isRetried (g.spec.faultOfError exc) then
        (g.spec.faultOfError exc,g.spec.maxAttempts - left)::
          match g.engine.waitFor (g.spec.faultOfError exc).action.directive
              (g.spec.faultOfError exc).retryAfterS (g.spec.maxAttempts - left) with
          | .ok () => readWaits req size left (attempt+1)
          | .error _ => []
      else []
    | .items _ => []
    | .raised _ => []

/-- The retries of one call of `iter_pages`. -/
def iterWaits (operationAlias : String) (size : Nat) (maxPages : Option Int)
    (params : Option Fields) : List (Fault × Nat) :=
  match g.readRequest operationAlias params with
  | .error _ => []
  | .ok req =>
    if maxPages.any (· < 1) then [] else g.readWaits driver req size g.spec.maxAttempts 0

/-- A server that answers page k with the k-th slice of the requested size, but for the attempts
that fail in some way. -/
structure Serves (req : HttpRequest) (items : List Value) (size : Nat) (fails : Nat → Bool) :
    Prop where
  served : ∀ n k, fails n = false → ∃ outcome,
    driver.requestOnce n (driver.paging.buildPagedRequest req (k+1) size) = .ok outcome ∧
    outcome.errorCode = none ∧
    outcome.statusCode.any (req.expectedStatuses.contains ·) = true ∧
    driver.paging.extractItems outcome.body = .ok (Paging.pageAt items size k)
  failed : ∀ n k found, fails n = true → driver.fetchPage n req (k+1) size ≠ .items found

def okPages (items : List Value) (size k j : Nat) : List TargetPageResult :=
  (List.range' k j).map fun i => okPage (i+1) (Paging.pageAt items size i)

/-- How a stream ends after `j` pages and `m` attempts: with all of the list, or with one page
for the attempt that failed. -/
def EndsWith (items : List Value) (size : Nat) (limit : Option Nat) (fails : Nat → Bool)
    (n k j m : Nat) (tail : List TargetPageResult) : Prop :=
  (tail = [] ∧ (∀ i < m, fails (n+i) = false) ∧
      (List.range' k j).flatMap (Paging.pageAt items size) = Paging.rest items size limit k) ∨
    ∃ page, tail = [page] ∧ page.ok = false ∧ page.items = none ∧ page.page = k + j ∧
      m = j + 1 ∧ fails (n+j) = true ∧ ∀ i < j, fails (n+i) = false

/-- The attempts from the `n`-th on ask for the pages after the first `k` one by one. -/
structure StreamsFrom (items : List Value) (size : Nat) (limit : Option Nat)
    (fails : Nat → Bool) (n k : Nat) (run : PageRead) : Prop where
  finished : run.ending = .finished
  stream : ∃ j m tail, run.asked = List.range' (k+1) m ∧
    run.pages = okPages items size k j ++ tail ∧ j ≤ m ∧ m ≤ j + 1 ∧
    EndsWith items size limit fails n k j m tail

variable {g driver} {req : HttpRequest} {items : List Value} {size : Nat} {fails : Nat → Bool}

theorem Serves.fetchPage (h : Serves driver req items size fails) {n : Nat} (k : Nat)
    (hn : fails n = false) :
    driver.fetchPage n req (k+1) size = .items (Paging.pageAt items size k) := by
  obtain ⟨outcome,honce,hcode,hstatus,hitems⟩ := h.served n k hn
  unfold HttpDriver.fetchPage
  rw [honce]
  dsimp only
  rw [hcode]
  dsimp only
  rw [hstatus, hitems]
  rfl

/-- A page that fails ends the stream. -/
theorem streamsFrom_failed {limit : Option Nat} {n k : Nat} {page : TargetPageResult}
    {counters : GatewayState} (hok : page.ok = false) (hitems : page.items = none)
    (hpage : page.page = k) (hn : fails n = true) :
    StreamsFrom items size limit fails n k (PageRead.after (k+1) (failRead page counters)) :=
  ⟨rfl,0,1,[page],rfl,rfl,by omega,by omega,
    .inr ⟨page,rfl,hok,hitems,hpage,rfl,hn,fun i hi => absurd hi (Nat.not_lt_zero i)⟩⟩

/-- The stream is over before a page is asked for. -/
theorem streamsFrom_over {limit : Option Nat} {n k : Nat} {counters : GatewayState}
    (h : Paging.rest items size limit k = []) :
    StreamsFrom items size limit fails n k ⟨[],[],.finished,counters⟩ :=
  ⟨rfl,0,0,[],rfl,rfl,by omega,by omega,
    .inl ⟨rfl,fun i hi => absurd hi (Nat.not_lt_zero i),h.symm⟩⟩

/-- A page that is empty or not full is the last. -/
theorem streamsFrom_empty {limit : Option Nat} {n k : Nat} {counters : GatewayState}
    (hn : fails n = false) (h : Paging.rest items size limit k = []) :
    StreamsFrom items size limit fails n k
      (PageRead.after (k+1) ⟨[],[],.finished,counters⟩) :=
  ⟨rfl,0,1,[],rfl,rfl,by omega,by omega,
    .inl ⟨rfl,fun i hi => by rw [Nat.lt_one_iff.mp hi]; exact hn,h.symm⟩⟩

/-- A full page goes before the rest of the stream. -/
theorem StreamsFrom.cons {limit : Option Nat} {n k : Nat} {run : PageRead}
    (hn : fails n = false) (hlimit : ∀ m, limit = some m → k < m)
    (h : StreamsFrom items size limit fails (n+1) (k+1) run) :
    StreamsFrom items size limit fails n k (PageRead.after (k+1)
      (PageRead.yield (okPage (k+1) (Paging.pageAt items size k)) run)) := by
  obtain ⟨hfinished,j,m,tail,hasked,hpages,hjm,hmj,hends⟩ := h
  have hshift (i b : Nat) (hb : ∀ i < b, fails (n+1+i) = false) (hi : i < b+1) :
      fails (n+i) = false := by
    cases i with
    | zero => exact hn
    | succ i =>
      have hlater := hb i (by omega)
      rwa [show n+1+i = n+(i+1) by omega] at hlater
  refine ⟨hfinished,j+1,m+1,tail,?_,?_,by omega,by omega,?_⟩
  · rw [List.range'_succ, PageRead.after, PageRead.yield, hasked]
  · rw [okPages, List.range'_succ, PageRead.after, PageRead.yield, hpages]
    rfl
  · rcases hends with ⟨htail,hfails,hrest⟩ | ⟨page,htail,hok,hitems,hpage,hm,hlast,hbefore⟩
    · refine .inl ⟨htail,fun i hi => hshift i m hfails hi,?_⟩
      rw [List.range'_succ, List.flatMap_cons, hrest, ← Paging.rest_step items size hlimit]
    · refine .inr ⟨page,htail,hok,hitems,by omega,by omega,?_,fun i hi => hshift i j hbefore hi⟩
      rw [show n+(j+1) = n+1+j by omega]
      exact hlast

/-- One attempt after `k` pages whose failure is not retried: the stream goes on with the next
page or ends. -/
theorem streamsFrom_turn {maxPages : Option Int} {fuel k : Nat} {s : ReadState}
    (hserves : Serves driver req items size fails) (hpos : 0 < size) (hpage : s.page = k+1)
    (hlast : s.lastPage = k)
    (hnot : ∀ exc, driver.fetchPage s.attempts req (k+1) size = .driverError exc →
      g.retriesRead (g.spec.faultOfError exc) s = false)
    (hlater : (k+1)*size ≤ items.length →
      StreamsFrom items size (maxPages.map Int.toNat) fails (s.attempts+1) (k+1)
        (g.readLoop driver req size maxPages fuel
          ⟨s.attempts+1,s.page+1,s.retriesUsed,s.page,s.counters.requested⟩)) :
    StreamsFrom items size (maxPages.map Int.toNat) fails s.attempts k
      (g.readLoop driver req size maxPages (fuel+1) s) := by
  rw [readLoop]
  by_cases hover : maxPages.any (· < (s.page : Int)) = true
  · rw [if_pos hover]
    cases maxPages with
    | none => cases hover
    | some limit =>
      have hlimit : limit < (s.page : Int) := of_decide_eq_true hover
      apply streamsFrom_over
      apply Paging.rest_of_limit
      omega
  rw [if_neg hover, hpage]
  have hlimit : ∀ m, maxPages.map Int.toNat = some m → k < m := by
    intro m hm
    obtain ⟨limit,rfl,rfl⟩ := Option.map_eq_some_iff.mp hm
    have hge : ¬ limit < (s.page : Int) := fun h => hover (decide_eq_true h)
    omega
  cases hn : fails s.attempts with
  | true =>
    cases hanswer : driver.fetchPage s.attempts req (k+1) size with
    | items found => exact absurd hanswer (hserves.failed s.attempts k found hn)
    | driverError exc =>
      dsimp only
      rw [if_neg (by rw [hnot exc hanswer]; exact Bool.false_ne_true)]
      exact streamsFrom_failed rfl rfl hlast hn
    | raised exc => exact streamsFrom_failed rfl rfl hlast hn
  | false =>
    rw [hserves.fetchPage k hn]
    dsimp only
    by_cases hempty : Paging.pageAt items size k = []
    · rw [if_pos hempty]
      apply streamsFrom_empty hn
      rw [Paging.rest_step items size hlimit, hempty, Paging.rest_of_short]
      · rfl
      · rw [hempty]
        exact hpos
    rw [if_neg hempty]
    by_cases hshort : (Paging.pageAt items size k).length < size
    · rw [if_pos hshort]
      refine ⟨rfl,1,1,[],rfl,rfl,by omega,by omega,.inl ⟨rfl,fun i hi => ?_,?_⟩⟩
      · rw [Nat.lt_one_iff.mp hi]
        exact hn
      · rw [Paging.rest_step items size hlimit, Paging.rest_of_short hshort]
        simp
    · rw [if_neg hshort, ← hpage]
      have hrest := hlater (Paging.length_of_full hpos hshort)
      rw [hpage] at hrest ⊢
      exact hrest.cons hn hlimit

/-- After a page was handed on, nothing is retried. -/
theorem streamsFrom_later {maxPages : Option Int} {fuel k : Nat} {s : ReadState}
    (hserves : Serves driver req items size fails) (hpos : 0 < size) (hpage : s.page = k+1)
    (hlast : s.lastPage = k) (hk : k ≠ 0) (hread : k*size ≤ items.length)
    (hfuel : items.length < fuel + k*size) :
    StreamsFrom items size (maxPages.map Int.toNat) fails s.attempts k
      (g.readLoop driver req size maxPages fuel s) := by
  induction fuel generalizing k s with
  | zero => omega
  | succ fuel ih =>
    apply streamsFrom_turn hserves hpos hpage hlast
    · intro exc _
      have hstarted : (s.lastPage == 0) = false := by
        rw [hlast]
        exact beq_false_of_ne hk
      rw [retriesRead, hstarted]
      rfl
    · intro hfull
      have hmore : items.length < fuel + (k+1)*size := by
        rw [Nat.succ_mul]
        omega
      exact ih (s := ⟨s.attempts+1,s.page+1,s.retriesUsed,s.page,s.counters.requested⟩)
        (congrArg (· + 1) hpage) hpage (Nat.succ_ne_zero k) hfull hmore

/-- The first page is asked for again after some attempts that failed, then the stream begins. -/
structure RetriesThenStreams (items : List Value) (size : Nat) (limit : Option Nat)
    (fails : Nat → Bool) (n left : Nat) (run : PageRead) : Prop where
  finished : run.ending = .finished
  retried : ∃ r j m tail, r ≤ left ∧ (∀ i < r, fails (n+i) = true) ∧
    run.asked = List.replicate r 1 ++ List.range' 1 m ∧
    run.pages = okPages items size 0 j ++ tail ∧ j ≤ m ∧ m ≤ j + 1 ∧
    EndsWith items size limit fails (n+r) 0 j m tail

theorem StreamsFrom.notRetried {limit : Option Nat} {n left : Nat} {run : PageRead}
    (h : StreamsFrom items size limit fails n 0 run) :
    RetriesThenStreams items size limit fails n left run := by
  obtain ⟨hfinished,j,m,tail,hasked,hpages,hjm,hmj,hends⟩ := h
  exact ⟨hfinished,0,j,m,tail,Nat.zero_le _,fun i hi => absurd hi (Nat.not_lt_zero i),hasked,
    hpages,hjm,hmj,hends⟩

theorem RetriesThenStreams.cons {limit : Option Nat} {n left : Nat} {run : PageRead}
    (hn : fails n = true) (h : RetriesThenStreams items size limit fails (n+1) left run) :
    RetriesThenStreams items size limit fails n (left+1) (PageRead.after 1 run) := by
  obtain ⟨hfinished,r,j,m,tail,hr,hfails,hasked,hpages,hjm,hmj,hends⟩ := h
  refine ⟨hfinished,r+1,j,m,tail,by omega,fun i hi => ?_,?_,hpages,hjm,hmj,?_⟩
  · cases i with
    | zero => exact hn
    | succ i =>
      have hlater := hfails i (by omega)
      rwa [show n+1+i = n+(i+1) by omega] at hlater
  · rw [PageRead.after, hasked]
    rfl
  · rwa [show n+(r+1) = n+1+r by omega]

/-- A failure that is retried. -/
theorem readLoop_retry {maxPages : Option Int} {fuel left : Nat} {s : ReadState}
    {exc : DriverError} (hover : ¬maxPages.any (· < 1) = true) (hpage : s.page = 1)
    (hlast : s.lastPage = 0) (hleft : s.retriesUsed + (left+1) = g.spec.maxAttempts)
    (hanswer : driver.fetchPage s.attempts req 1 size = .driverError exc)
    (hretried : isRetried (g.spec.faultOfError exc) = true) :
    g.readLoop driver req size maxPages (fuel+1) s = PageRead.after 1
      (match g.engine.waitFor (g.spec.faultOfError exc).action.directive
          (g.spec.faultOfError exc).retryAfterS (g.spec.maxAttempts - left) with
        | .error raised => ⟨[],[],.raised raised,s.counters.retried⟩
        | .ok () => g.readLoop driver req size maxPages fuel
            ⟨s.attempts+1,1,s.retriesUsed+1,s.lastPage,s.counters.retried⟩) := by
  have hbudget : s.retriesUsed < g.spec.maxAttempts := by omega
  have hnumber : s.retriesUsed + 1 = g.spec.maxAttempts - left := by omega
  have hread : g.retriesRead (g.spec.faultOfError exc) s = true := by
    simp [retriesRead, hlast, hretried, hbudget]
  have hcap : ¬maxPages.any (· < ((1 : Nat) : Int)) = true := hover
  rw [readLoop, hpage, if_neg hcap, hanswer]
  dsimp only
  rw [if_pos hread, hnumber]

/-- A first attempt that is not retried. -/
theorem streamsFrom_first {maxPages : Option Int} {fuel : Nat} {s : ReadState}
    (hserves : Serves driver req items size fails) (hpos : 0 < size) (hpage : s.page = 1)
    (hlast : s.lastPage = 0) (hfuel : items.length < fuel)
    (hnot : ∀ exc, driver.fetchPage s.attempts req 1 size = .driverError exc →
      g.retriesRead (g.spec.faultOfError exc) s = false) :
    StreamsFrom items size (maxPages.map Int.toNat) fails s.attempts 0
      (g.readLoop driver req size maxPages (fuel+1) s) := by
  apply streamsFrom_turn hserves hpos hpage hlast hnot
  intro hfull
  exact streamsFrom_later
    (s := ⟨s.attempts+1,s.page+1,s.retriesUsed,s.page,s.counters.requested⟩) hserves hpos
    (congrArg (· + 1) hpage) hpage Nat.one_ne_zero hfull (by omega)

/-- While every wait returns, the stream begins in the end. -/
theorem retriesThenStreams_of_waits {maxPages : Option Int} {fuel left : Nat} {s : ReadState}
    (hserves : Serves driver req items size fails) (hpos : 0 < size)
    (hover : ¬maxPages.any (· < 1) = true) (hpage : s.page = 1) (hlast : s.lastPage = 0)
    (hleft : s.retriesUsed + left = g.spec.maxAttempts) (hfuel : items.length + left < fuel)
    (hwaits : ∀ w ∈ g.readWaits driver req size left s.attempts,
      g.engine.waitFor w.1.action.directive w.1.retryAfterS w.2 = .ok ()) :
    RetriesThenStreams items size (maxPages.map Int.toNat) fails s.attempts left
      (g.readLoop driver req size maxPages (fuel+1) s) := by
  induction left generalizing s fuel with
  | zero =>
    apply StreamsFrom.notRetried
    apply streamsFrom_first hserves hpos hpage hlast hfuel
    intro exc _
    have hspent : ¬s.retriesUsed < g.spec.maxAttempts := by omega
    simp [retriesRead, hspent]
  | succ left ih =>
    by_cases hretry : ∃ exc, driver.fetchPage s.attempts req 1 size = .driverError exc ∧
        isRetried (g.spec.faultOfError exc) = true
    · obtain ⟨exc,hanswer,hretried⟩ := hretry
      rw [readWaits, hanswer] at hwaits
      dsimp only at hwaits
      rw [if_pos hretried, List.forall_mem_cons] at hwaits
      obtain ⟨hwait,hwaits⟩ := hwaits
      dsimp only at hwait
      rw [hwait] at hwaits
      rw [readLoop_retry hover hpage hlast hleft hanswer hretried, hwait]
      obtain ⟨fuel,rfl⟩ : ∃ f, fuel = f + 1 := ⟨fuel - 1,by omega⟩
      have hn : fails s.attempts = true := by
        by_contra hserved
        have hfetched := hserves.fetchPage 0 (Bool.eq_false_of_not_eq_true hserved)
        rw [hanswer] at hfetched
        cases hfetched
      apply RetriesThenStreams.cons hn
      exact ih (s := ⟨s.attempts+1,1,s.retriesUsed+1,s.lastPage,s.counters.retried⟩) rfl hlast
        (by dsimp only; omega) (by omega) hwaits
    · apply StreamsFrom.notRetried
      apply streamsFrom_first hserves hpos hpage hlast (by omega)
      intro exc hanswer
      have hnot : isRetried (g.spec.faultOfError exc) = false :=
        Bool.eq_false_of_not_eq_true fun h => hretry ⟨exc,hanswer,h⟩
      simp [retriesRead, hnot]

/-- An iteration that ends without an exception has waited as often as it was asked to. -/
theorem waits_of_finished {maxPages : Option Int} {fuel left : Nat} {s : ReadState}
    (hover : ¬maxPages.any (· < 1) = true) (hpage : s.page = 1) (hlast : s.lastPage = 0)
    (hleft : s.retriesUsed + left = g.spec.maxAttempts)
    (h : (g.readLoop driver req size maxPages fuel s).ending = .finished) :
    ∀ w ∈ g.readWaits driver req size left s.attempts,
      g.engine.waitFor w.1.action.directive w.1.retryAfterS w.2 = .ok () := by
  induction left generalizing s fuel with
  | zero => exact fun w hw => absurd hw List.not_mem_nil
  | succ left ih =>
    cases fuel with
    | zero => cases h
    | succ fuel =>
      rw [readWaits]
      cases hanswer : driver.fetchPage s.attempts req 1 size with
      | items found => exact fun w hw => absurd hw List.not_mem_nil
      | raised exc => exact fun w hw => absurd hw List.not_mem_nil
      | driverError exc =>
        dsimp only
        by_cases hretried : isRetried (g.spec.faultOfError exc) = true
        · rw [if_pos hretried, List.forall_mem_cons]
          rw [readLoop_retry hover hpage hlast hleft hanswer hretried] at h
          cases hwait : g.engine.waitFor (g.spec.faultOfError exc).action.directive
              (g.spec.faultOfError exc).retryAfterS (g.spec.maxAttempts - left) with
          | error raised =>
            rw [hwait] at h
            cases h
          | ok _ =>
            rw [hwait] at h
            exact ⟨rfl,ih (s := ⟨s.attempts+1,1,s.retriesUsed+1,s.lastPage,
              s.counters.retried⟩) rfl hlast (by dsimp only; omega) h⟩
        · rw [if_neg hretried]
          exact fun w hw => absurd hw List.not_mem_nil

/-- What a read promises: it ends, the first page is asked for again at most as often as there
are retries, and each page once from then on; the pages that are handed on are the pages of the
list in order, all of them unless the last attempt failed, and then one page says so. -/
structure DeliversOnce (items : List Value) (size : Nat) (limit : Option Nat)
    (fails : Nat → Bool) (budget : Nat) (run : PageRead) : Prop where
  finished : run.ending = .finished
  stream : ∃ r j m tail, r ≤ budget ∧ (∀ i < r, fails i = true) ∧
    run.asked = List.replicate r 1 ++ List.range' 1 m ∧
    run.pages = okPages items size 0 j ++ tail ∧ j ≤ m ∧ m ≤ j + 1 ∧
    ((tail = [] ∧ (∀ i < m, fails (r+i) = false) ∧
        (run.pages.flatMap fun p => p.items.getD []) =
          Sanitize.maskItems (Paging.capped items size limit)) ∨
      ∃ page, tail = [page] ∧ page.ok = false ∧ page.items = none ∧ page.page = j ∧
        (run.pages.flatMap fun p => p.items.getD []) =
          Sanitize.maskItems (items.take (j*size)) ∧
        (run.asked = [] ∨ m = j + 1 ∧ fails (r+j) = true ∧ ∀ i < j, fails (r+i) = false))

theorem maskItems_append (xs ys : List Value) :
    Sanitize.maskItems (xs ++ ys) = Sanitize.maskItems xs ++ Sanitize.maskItems ys := by
  induction xs with
  | nil => rfl
  | cons x xs ih => rw [List.cons_append, Sanitize.maskItems, Sanitize.maskItems, ih]; rfl

theorem okPages_items (items : List Value) (size k j : Nat) :
    ((okPages items size k j).flatMap fun p => p.items.getD []) =
      Sanitize.maskItems ((List.range' k j).flatMap (Paging.pageAt items size)) := by
  induction j generalizing k with
  | zero => rfl
  | succ j ih =>
    rw [okPages, List.range'_succ, List.map_cons, List.flatMap_cons, List.flatMap_cons,
      maskItems_append, ← ih (k+1)]
    rfl

theorem RetriesThenStreams.delivers {limit : Option Nat} {budget : Nat} {run : PageRead}
    (h : RetriesThenStreams items size limit fails 0 budget run) :
    DeliversOnce items size limit fails budget run := by
  obtain ⟨hfinished,r,j,m,tail,hr,hfails,hasked,hpages,hjm,hmj,hends⟩ := h
  have hfails' : ∀ i < r, fails i = true := fun i hi => by
    have hi := hfails i hi
    rwa [Nat.zero_add] at hi
  rw [EndsWith, Nat.zero_add r] at hends
  refine ⟨hfinished,r,j,m,tail,hr,hfails',hasked,hpages,hjm,hmj,?_⟩
  rcases hends with ⟨rfl,hserved,hrest⟩ | ⟨page,rfl,hok,hitems,hpage,hm,hlast,hbefore⟩
  · refine .inl ⟨rfl,hserved,?_⟩
    rw [hpages, List.append_nil, okPages_items, hrest, Paging.rest_zero]
  · rw [Nat.zero_add] at hpage
    refine .inr ⟨page,rfl,hok,hitems,hpage,?_,.inr ⟨hm,hlast,hbefore⟩⟩
    rw [hpages, List.flatMap_append, okPages_items, Paging.flatMap_pageAt]
    simp [hitems]

/-- A call that no request can be built for, or that may not ask for a page. -/
theorem delivers_failRead {limit : Option Nat} {budget : Nat} {page : TargetPageResult}
    {counters : GatewayState} (hok : page.ok = false) (hitems : page.items = none)
    (hpage : page.page = 0) :
    DeliversOnce items size limit fails budget (failRead page counters) := by
  refine ⟨rfl,0,0,0,[page],Nat.zero_le _,fun i hi => absurd hi (Nat.not_lt_zero i),rfl,rfl,
    Nat.le_refl _,Nat.zero_le _,.inr ⟨page,rfl,hok,hitems,hpage,?_,.inl rfl⟩⟩
  simp [failRead, hitems, Sanitize.maskItems]

variable (g driver)

/-- A read keeps its promises exactly when the platform waits as long as each retry asks it to;
with enough fuel it ends. -/
theorem iterPages_delivers_iff {operationAlias : String} {params : Option Fields}
    {maxPages : Option Int} {fuel : Nat} (counters : GatewayState) (hpos : 0 < size)
    (hserves : ∀ req, g.readRequest operationAlias params = .ok req →
      Serves driver req items size fails)
    (hfuel : items.length + g.spec.maxAttempts + 1 < fuel) :
    DeliversOnce items size (maxPages.map Int.toNat) fails g.spec.maxAttempts
        (g.iterPages driver operationAlias size maxPages params fuel counters) ↔
      ∀ w ∈ g.iterWaits driver operationAlias size maxPages params,
        g.engine.waitFor w.1.action.directive w.1.retryAfterS w.2 = .ok () := by
  unfold iterPages iterWaits
  cases hreq : g.readRequest operationAlias params with
  | error exc =>
    exact ⟨fun _ w hw => absurd hw List.not_mem_nil,fun _ => delivers_failRead rfl rfl rfl⟩
  | ok req =>
    dsimp only
    obtain ⟨fuel,rfl⟩ : ∃ f, fuel = f + 1 := ⟨fuel - 1,by omega⟩
    by_cases hover : maxPages.any (· < 1) = true
    · rw [if_pos hover]
      refine ⟨fun _ w hw => absurd hw List.not_mem_nil,fun _ => ?_⟩
      have hcap : maxPages.any (· < ((1 : Nat) : Int)) = true := hover
      rw [readLoop, if_pos hcap]
      apply RetriesThenStreams.delivers
      apply StreamsFrom.notRetried
      apply streamsFrom_over
      cases maxPages with
      | none => cases hover
      | some limit =>
        have hlimit : limit < 1 := of_decide_eq_true hover
        apply Paging.rest_of_limit
        omega
    · rw [if_neg hover]
      constructor
      · exact fun h => waits_of_finished (s := ⟨0,1,0,0,counters⟩) hover rfl rfl
          (Nat.zero_add _) h.finished
      · exact fun hwaits => (retriesThenStreams_of_waits (s := ⟨0,1,0,0,counters⟩)
          (hserves req hreq) hpos hover rfl rfl (Nat.zero_add _) (by omega) hwaits).delivers

end TargetGateway

namespace Ankey

theorem buildPagedRequest_query (base : HttpRequest) (page batchSize : Nat) :
    Fields.read (buildPagedRequest base page batchSize).query "page" = .int page ∧
      Fields.read (buildPagedRequest base page batchSize).query "rows" = .int batchSize := by
  have hrows : Fields.read (Dict.set (Dict.set base.query "page" (.int page)) "rows"
      (.int batchSize)) "rows" = .int batchSize := Fields.read_set_self ..
  have hpage : Fields.read (Dict.set (Dict.set base.query "page" (.int page)) "rows"
      (.int batchSize)) "page" = .int page := by
    rw [Fields.read_set_ne _ _ (by decide), Fields.read_set_self]
  unfold buildPagedRequest
  dsimp only
  split
  · exact ⟨hpage,hrows⟩
  · exact ⟨(Fields.read_set_ne _ _ (by decide)).trans hpage,
      (Fields.read_set_ne _ _ (by decide)).trans hrows⟩

end Ankey

namespace TargetGateway

section Samples

def throttledAnswer (retryAfter : String) : HttpNormalizedOutcome :=
  ⟨some 429,.null,none,none,none,parseRetryAfter wholeSeconds (some retryAfter)⟩

/-- A list behind an interface with pages; some attempts are answered by 429. -/
def listServer (items : List Value) (fails : Nat → Bool) (retryAfter : String) : HttpDriver :=
  { requestOnce := fun n req =>
      if fails n then .ok (throttledAnswer retryAfter)
      else match Fields.read req.query "page", Fields.read req.query "rows" with
        | .int page, .int rows => .ok ⟨some 200,
            .list (Paging.pageAt items rows.toNat (page.toNat - 1)),none,none,none,none⟩
        | _, _ => .ok ⟨some 400,.null,none,none,none,none⟩
    paging := Ankey.paging
    errorReason := fun _ _ => none }

theorem listServer_serves (items : List Value) (fails : Nat → Bool) (retryAfter : String)
    (req : HttpRequest) (size : Nat) (h : req.expectedStatuses = [200]) :
    Serves (listServer items fails retryAfter) req items size fails where
  served n k hn := by
    obtain ⟨hpage,hrows⟩ := Ankey.buildPagedRequest_query req (k+1) size
    have honce : (listServer items fails retryAfter).requestOnce n
        (Ankey.buildPagedRequest req (k+1) size) =
          .ok ⟨some 200,.list (Paging.pageAt items size k),none,none,none,none⟩ := by
      simp [listServer, hn, hpage, hrows]
    exact ⟨_,honce,rfl,by rw [h]; rfl,rfl⟩
  failed n k found hn := by
    have honce : (listServer items fails retryAfter).requestOnce n
        (Ankey.buildPagedRequest req (k+1) size) = .ok (throttledAnswer retryAfter) := by
      simp [listServer, hn]
    have hstatus : (some 429 : Option Int).any (req.expectedStatuses.contains ·) = false := by
      rw [h]
      rfl
    intro hfound
    have hpaging : (listServer items fails retryAfter).paging.buildPagedRequest =
        Ankey.buildPagedRequest := rfl
    rw [HttpDriver.fetchPage, hpaging, honce] at hfound
    dsimp only [throttledAnswer] at hfound
    rw [hstatus] at hfound
    cases hfound

/-- The throttled target, when it may be read in pages. -/
def pagedTarget : TargetSpec :=
  { throttledTarget with capabilities := [.check, .readPaged], checked := by decide }

def pagedGateway : TargetGateway := ⟨pagedTarget,⟨fun _ => .seconds 0,sleepWithin⟩,[]⟩

def staff : List Value := [.dict [("id",.int 1)], .dict [("id",.int 2)], .dict [("id",.int 3)]]

/-- The first attempt is answered by a wait that no clock can hold, and the exception of the
platform leaves the iteration. -/
theorem page_wait_too_long_escapes :
    (pagedGateway.iterPages (listServer staff (· == 0) "99999999999") "users.ping" 2 none none 9
      ⟨0,0,0,0⟩).ending =
        .raised ⟨"OverflowError","timestamp too large to convert to C PyTime_t"⟩ ∧
    ¬ DeliversOnce staff 2 none (· == 0) 1
      (pagedGateway.iterPages (listServer staff (· == 0) "99999999999") "users.ping" 2 none none 9
        ⟨0,0,0,0⟩) := by
  have hescapes : (pagedGateway.iterPages (listServer staff (· == 0) "99999999999") "users.ping" 2
      none none 9 ⟨0,0,0,0⟩).ending =
        .raised ⟨"OverflowError","timestamp too large to convert to C PyTime_t"⟩ := by
    decide
  refine ⟨hescapes,fun h => ?_⟩
  have hfinished := h.finished
  rw [hescapes] at hfinished
  cases hfinished

theorem pagedRequest_statuses {req : HttpRequest}
    (h : pagedGateway.readRequest "users.ping" none = .ok req) :
    req.expectedStatuses = [200] := by
  have hbuilt : pagedGateway.readRequest "users.ping" none =
      .ok ⟨"GET","/users",[],[],.null,[200]⟩ := by decide
  rw [hbuilt] at h
  cases h
  rfl

theorem iterPages_delivers_iff_staff :
    DeliversOnce staff 2 ((some 5).map Int.toNat) (· == 0) 1
        (pagedGateway.iterPages (listServer staff (· == 0) "3") "users.ping" 2 (some 5) none 9
          ⟨0,0,0,0⟩) ↔
      ∀ w ∈ pagedGateway.iterWaits (listServer staff (· == 0) "3") "users.ping" 2 (some 5) none,
        pagedGateway.engine.waitFor w.1.action.directive w.1.retryAfterS w.2 = .ok () :=
  iterPages_delivers_iff pagedGateway (listServer staff (· == 0) "3") ⟨0,0,0,0⟩
    (by decide) (fun req h => listServer_serves staff (· == 0) "3" req 2 (pagedRequest_statuses h))
    (by decide)

example : (pagedGateway.iterPages (listServer staff (· == 0) "3") "users.ping" 2 none none 9
    ⟨0,0,0,0⟩).asked = [1, 1, 2] := by decide

end Samples

end TargetGateway
end NexusEtl
