import NexusEtl.ResolveCore
import NexusEtl.Library.Runs

/-!
# What one row does to the pending links

The trace of an outcome is complete: the table after a row is the table before
it with the requests of the trace applied in order, and then the links of the
row closed when the outcome says so. Everything that later modules prove about
the resolver goes through the few statements at the end of this file.
-/

set_option autoImplicit false

namespace NexusEtl
open NexusEtl.Library

def requestStep (maxAttempts : Int) (now : String) (t : PendingTable) (req : PendingRequest) :
    PendingTable := (t.request maxAttempts req now).1

namespace ResolveCore

variable (core : ResolveCore)

/-- A request of the row: made for one of its link rules, with the row as its payload. -/
def MadeFor (call : ResolveCall) (req : PendingRequest) : Prop :=
  ∃ rule ∈ core.linkRules, ∃ lookupKey desired,
    req = core.pendingRequest call rule lookupKey desired

/-- A link that was answered: by its rule, and from the candidates of its key unless a
topology service had a say. -/
def Answered (db : IdentityDb) (call : ResolveCall) (hit : LinkHit) : Prop :=
  hit.rule ∈ core.linkRules ∧ (core.topologyServices = none →
    hit.resolvedId ∈ lookupCandidates call.batchIndex db hit.rule.targetDataset hit.lookupKey)

/-- The loop over the links up to a state, told by the trace of the state. -/
structure Traced (db : IdentityDb) (call : ResolveCall) (desired : Fields)
    (s : LinkState) : Prop where
  pending : s.pending =
    run (requestStep core.settings.pendingMaxAttempts call.clock.now) db.pending s.requests
  requests : ∀ req ∈ s.requests, core.MadeFor call req
  created : s.pendingCreated = false ↔ s.requests = []
  quiet : s.requests = [] → s.warnings = []
  calm : s.requests = [] → s.shouldStop = false → s.errors = []
  stages : ∀ e ∈ s.errors, e.stage = .resolve
  frame : ∀ field, (∀ rule ∈ core.linkRules, rule.field ≠ field) →
    Fields.read s.desired field = Fields.read desired field
  hits : ∀ hit ∈ s.hits, core.Answered db call hit

variable {core} {db : IdentityDb} {call : ResolveCall} {desired : Fields} {s : LinkState}

theorem Traced.init : core.Traced db call desired (LinkState.start db.pending desired) where
  pending := rfl
  requests := by simp [LinkState.start]
  created := by simp [LinkState.start]
  quiet := fun _ => rfl
  calm := fun _ _ => rfl
  stages := by simp [LinkState.start]
  frame := fun _ _ => rfl
  hits := by simp [LinkState.start]

theorem Traced.stop (h : core.Traced db call desired s) (e : DiagnosticItem)
    (he : e.stage = .resolve) :
    core.Traced db call desired { s with shouldStop := true, errors := s.errors ++ [e] } where
  pending := h.pending
  requests := h.requests
  created := h.created
  quiet := h.quiet
  calm := fun _ hstop => by simp at hstop
  stages := by
    intro d hd
    rcases List.mem_append.mp hd with hd | hd
    · exact h.stages d hd
    · rw [List.mem_singleton.mp hd, he]
  frame := h.frame
  hits := h.hits

theorem Traced.setLink (h : core.Traced db call desired s) {rule : LinkFieldRule}
    {lookupKey : Option String} {id : String}
    (ha : core.Answered db call ⟨rule,lookupKey.getD "",id⟩) :
    core.Traced db call desired (setLink rule lookupKey id s) := by
  have hhits : ∀ hit ∈ s.hits ++ [⟨rule,lookupKey.getD "",id⟩], core.Answered db call hit := by
    intro hit hmem
    rcases List.mem_append.mp hmem with hmem | hmem
    · exact h.hits hit hmem
    · rw [List.mem_singleton.mp hmem]
      exact ha
  unfold ResolveCore.setLink
  dsimp only
  split
  · exact ⟨h.pending,h.requests,h.created,h.quiet,h.calm,h.stages,h.frame,hhits⟩
  · refine ⟨h.pending,h.requests,h.created,h.quiet,h.calm,h.stages,fun field hf => ?_,hhits⟩
    rw [Fields.read_set_ne _ _ (hf rule ha.1)]
    exact h.frame field hf

theorem Traced.createPendingLink (h : core.Traced db call desired s) {rule : LinkFieldRule}
    (hr : rule ∈ core.linkRules) (lookupKey reason : Option String) :
    core.Traced db call desired (core.createPendingLink call rule lookupKey reason s) := by
  have hpending : (s.pending.request core.settings.pendingMaxAttempts
      (core.pendingRequest call rule lookupKey s.desired) call.clock.now).1 =
      run (requestStep core.settings.pendingMaxAttempts call.clock.now) db.pending
        (s.requests ++ [core.pendingRequest call rule lookupKey s.desired]) := by
    rw [run_append, ← h.pending]
    rfl
  have hrequests : ∀ req ∈ s.requests ++ [core.pendingRequest call rule lookupKey s.desired],
      core.MadeFor call req := by
    intro req hreq
    rcases List.mem_append.mp hreq with hreq | hreq
    · exact h.requests req hreq
    · exact ⟨rule,hr,lookupKey,s.desired,List.mem_singleton.mp hreq⟩
  unfold ResolveCore.createPendingLink
  dsimp only
  split
  · refine ⟨hpending,hrequests,by simp,by simp,by simp,?_,h.frame,h.hits⟩
    intro e he
    rcases List.mem_append.mp he with he | he
    · exact h.stages e he
    · rw [List.mem_singleton.mp he]
      rfl
  · exact ⟨hpending,hrequests,by simp,by simp,by simp,h.stages,h.frame,h.hits⟩

theorem Traced.settleLink (h : core.Traced db call desired s) {rule : LinkFieldRule}
    (hr : rule ∈ core.linkRules) {lookupKey resolvedId : Option String} (reason : Option String)
    (ha : ∀ id, resolvedId = some id → core.Answered db call ⟨rule,lookupKey.getD "",id⟩) :
    core.Traced db call desired
      (core.settleLink call rule lookupKey resolvedId reason s).2 := by
  unfold ResolveCore.settleLink
  split
  · exact h.setLink (ha _ rfl)
  · split
    · exact h.stop _ rfl
    · exact h.createPendingLink hr lookupKey reason

theorem narrow_subset {lookup : String → List String} {value : String → Option String}
    {names found : List String} {id : String} (h : id ∈ narrow lookup value names found) :
    id ∈ found := by
  induction names generalizing found with
  | nil => exact h
  | cons name names ih =>
    simp only [narrow] at h
    split at h
    · cases h
    · exact (List.mem_filter.mp (ih h)).1

theorem applyDedup_subset {lookup : String → List String} {value : String → Option String}
    {rules : List (List String)} {remaining : List String} {id : String}
    (h : id ∈ applyDedup lookup value rules remaining) : id ∈ remaining := by
  induction rules generalizing remaining with
  | nil => exact h
  | cons names rules ih =>
    unfold applyDedup at h
    split at h
    · cases h
    · dsimp only at h
      have hkept : ∀ id, id ∈ (if narrow lookup value names remaining = [] then remaining
          else narrow lookup value names remaining) → id ∈ remaining := by
        intro id hid
        split at hid
        · exact hid
        · exact narrow_subset hid
      generalize (if narrow lookup value names remaining = [] then remaining
        else narrow lookup value names remaining) = kept at h hkept
      split at h
      · exact hkept id h
      · exact hkept id (ih h)

theorem applyDedupRules_subset {rule : LinkFieldRule} {keyValues : Dict String String}
    {batchIndex : BatchIndex} {candidates : List String} {id : String}
    (h : id ∈ applyDedupRules rule keyValues desired db batchIndex candidates) :
    id ∈ candidates := by
  unfold applyDedupRules at h
  split at h
  · exact h
  · exact List.mem_eraseDups.mp (applyDedup_subset h)

/-- What a lookup by the rules answers is a candidate of the key that it used. -/
theorem resolveWithRules_mem {rule : LinkFieldRule} {keyValues : Dict String String}
    {batchIndex : BatchIndex} {keys : List LinkKeyRule} {used : Option String} {id : String}
    (h : (resolveWithRules rule keyValues desired db batchIndex keys used).resolvedId = some id) :
    ∃ key, (resolveWithRules rule keyValues desired db batchIndex keys used).usedLookup =
        some key ∧ id ∈ lookupCandidates batchIndex db rule.targetDataset key := by
  induction keys generalizing used with
  | nil => cases h
  | cons key keys ih =>
    simp only [resolveWithRules] at h ⊢
    split at h
    · exact ih h
    · rename_i value hvalue
      split at h
      · exact ih h
      · rename_i only hcandidates
        cases h
        exact ⟨_,rfl,by rw [hcandidates]; exact List.mem_singleton_self _⟩
      · split at h
        · rename_i hnarrowed
          cases h
          have hmem : id ∈ applyDedupRules rule keyValues desired db batchIndex
              (lookupCandidates batchIndex db rule.targetDataset
                (formatIdentityKey key.name value)) := by
            rw [hnarrowed]
            exact List.mem_singleton_self _
          exact ⟨_,rfl,applyDedupRules_subset hmem⟩
        · cases h

theorem topologyDecision_none {rule : LinkFieldRule} {outcome : LinkLookupOutcome}
    {decision : Option TopologyLinkDecision} (hs : core.topologyServices = none)
    (h : core.topologyDecision call rule outcome = .ok decision) : decision = none := by
  unfold topologyDecision at h
  split at h
  · rw [resolveWithTopology, hs] at h
    exact (Except.ok.inj h).symm
  · exact (Except.ok.inj h).symm

/-- One round of the loop keeps the trace complete. -/
theorem Traced.resolveLink (h : core.Traced db call desired s) {rule : LinkFieldRule}
    (hr : rule ∈ core.linkRules) :
    core.Traced db call desired (core.resolveLink db call rule s).2 := by
  unfold ResolveCore.resolveLink
  split
  · exact h
  · dsimp only
    split
    · exact h
    · refine h.settleLink hr _ fun id hid => ⟨hr,fun _ => ?_⟩
      obtain ⟨key,hkey,hmem⟩ := resolveWithRules_mem hid
      rw [hkey]
      exact hmem
    · rename_i decision hdecision
      split
      · refine h.settleLink hr _ fun id _ => ⟨hr,fun hs => ?_⟩
        cases topologyDecision_none hs hdecision
      · exact h.stop _ rfl
      · exact h.createPendingLink hr _ _

theorem Traced.resolveLinkLoop {rules : List LinkFieldRule}
    (hr : ∀ rule ∈ rules, rule ∈ core.linkRules) (h : core.Traced db call desired s) :
    core.Traced db call desired (core.resolveLinkLoop db call rules s).2 := by
  induction rules generalizing s with
  | nil => exact h
  | cons rule rules ih =>
    have hstep := h.resolveLink (hr rule List.mem_cons_self)
    unfold ResolveCore.resolveLinkLoop
    split
    · rename_i heq
      rw [heq] at hstep
      exact ih (fun r hr' => hr r (List.mem_cons_of_mem _ hr')) hstep
    · rename_i heq
      rw [heq] at hstep
      exact hstep
    · rename_i heq
      rw [heq] at hstep
      exact hstep

theorem Traced.resolveLinks (h : core.Traced db call desired s) :
    core.Traced db call desired (core.resolveLinks db call s).2 := by
  unfold ResolveCore.resolveLinks
  split
  · exact h
  · split
    · exact h.stop _ rfl
    · exact h.resolveLinkLoop fun _ hr => hr

theorem validateField_error {row : Fields} {field : SinkFieldSpec} {types : Bool}
    {issue : DslIssue} (h : issue ∈ validateField row field types) : issue.severity = .error := by
  unfold validateField at h
  dsimp only at h
  split at h
  · rw [List.mem_singleton.mp h]
    rfl
  · split at h
    · simp at h
    · rw [List.mem_singleton.mp h]
      rfl

theorem sinkIssues_error {desired : Fields} {mutated : List String} {issue : DslIssue}
    (h : issue ∈ core.sinkIssues desired mutated) : issue.severity = .error := by
  unfold sinkIssues at h
  split at h
  · simp at h
  · obtain ⟨name,_,h⟩ := List.mem_flatMap.mp h
    split at h
    · exact validateField_error h
    · simp at h

theorem appendDslIssues_warnings (stage : DiagnosticStage) (catalog : ErrorCatalog)
    (ref : Option RowRef) (acc : Diagnosed) {issues : List DslIssue}
    (h : ∀ issue ∈ issues, issue.severity = .error) :
    (appendDslIssues stage catalog ref .error acc issues).warnings = acc.warnings := by
  induction issues generalizing acc with
  | nil => rfl
  | cons issue issues ih =>
    have hone : (appendDslIssue stage catalog ref .error acc issue).warnings = acc.warnings := by
      have hs := h issue List.mem_cons_self
      simp [appendDslIssue, hs]
    exact (ih _ fun i hi => h i (List.mem_cons_of_mem _ hi)).trans hone

/-- A result without a row, whose errors are of the resolve stage. -/
def Dropped (warnings : List DiagnosticItem) (result : Except PyException Resolution) : Prop :=
  ∀ r, result = .ok r → r.row = none ∧ r.warnings = warnings ∧ ∀ e ∈ r.errors, e.stage = .resolve

/-- What a state of the loop must satisfy for the row to be built. -/
structure Built (core : ResolveCore) (call : ResolveCall) (s : LinkState) (row : ResolvedRow) :
    Prop where
  going : s.shouldStop = false
  target : (resolveTargetId call.matched call.targetIdMap).truthy
  built : core.buildResolvedRow call.matched s.desired
    (resolveTargetId call.matched call.targetIdMap) = .ok row

def emitted (core : ResolveCore) (call : ResolveCall) (s : LinkState) (row : ResolvedRow) :
    ResolveOutcome :=
  if !s.pendingCreated && core.hasGateway then
    { outcomeOf s (.ok ⟨some row,s.errors,s.warnings⟩) with
      pending := s.pending.markResolvedForSource call.rowId call.clock.now
      closed := true }
  else outcomeOf s (.ok ⟨some row,s.errors,s.warnings⟩)

/-- The part after the links: the row is dropped, or it is built and perhaps closes links. -/
theorem finish_cases (mutated : List String) (hs : ∀ e ∈ s.errors, e.stage = .resolve) :
    (∃ result, core.finish call mutated s = outcomeOf s result ∧ Dropped s.warnings result) ∨
      ∃ row, Built core call s row ∧ core.finish call mutated s = emitted core call s row := by
  unfold finish
  dsimp only
  split
  · exact .inl ⟨_,rfl,by rintro r ⟨⟩; exact ⟨rfl,rfl,hs⟩⟩
  · rename_i hstop
    split
    · refine .inl ⟨_,rfl,?_⟩
      rintro r ⟨⟩
      refine ⟨rfl,appendDslIssues_warnings _ _ _ _ fun _ => sinkIssues_error,?_⟩
      have hacc : Diagnosed.ErrorsOf .resolve ⟨s.errors,s.warnings⟩ := hs
      exact appendDslIssues_errorsOf core.catalog _ .error hacc _
    · split
      · refine .inl ⟨_,rfl,?_⟩
        rintro r ⟨⟩
        refine ⟨rfl,rfl,?_⟩
        intro e he
        rcases List.mem_append.mp he with he | he
        · exact hs e he
        · rw [List.mem_singleton.mp he]
          rfl
      · rename_i htarget
        split
        · exact .inl ⟨_,rfl,by rintro r ⟨⟩⟩
        · rename_i row hrow
          exact .inr ⟨row,⟨by simpa using hstop,by simpa using htarget,hrow⟩,rfl⟩

/-- The loop of a row that got that far: its status, its merged state and its trace. -/
structure Entered (core : ResolveCore) (db : IdentityDb) (call : ResolveCall) (s : LinkState) :
    Prop where
  status : resolveDecisionStatus call.matched = .matched ∨
    resolveDecisionStatus call.matched = .notFound
  traced : ∃ merged mutated, core.applyMergePolicy call.matched = .ok (merged,mutated) ∧
    core.Traced db call merged s

/-- Everything `resolve` can do to a row: refuse it before the links, drop it after them,
or emit it. -/
def Handled (core : ResolveCore) (db : IdentityDb) (call : ResolveCall)
    (outcome : ResolveOutcome) : Prop :=
  (∃ result, outcome = refused db result ∧ Dropped [] result) ∨
    ∃ s, Entered core db call s ∧
      ((∃ result, outcome = outcomeOf s result ∧ Dropped s.warnings result) ∨
        ∃ row, Built core call s row ∧ outcome = emitted core call s row)

theorem resolveAccepted_cases (core : ResolveCore) (db : IdentityDb) (call : ResolveCall)
    (hstatus : resolveDecisionStatus call.matched = .matched ∨
      resolveDecisionStatus call.matched = .notFound) :
    Handled core db call (core.resolveAccepted db call) := by
  unfold resolveAccepted
  split
  · exact .inl ⟨_,rfl,by rintro r ⟨⟩⟩
  · rename_i merged mutated hmerge
    have htraced : core.Traced db call merged
        (core.resolveLinks db call (LinkState.start db.pending merged)).2 :=
      Traced.init.resolveLinks
    generalize core.resolveLinks db call (LinkState.start db.pending merged) = loop at htraced
    obtain ⟨flow,s⟩ := loop
    refine .inr ⟨s,⟨hstatus,merged,mutated,hmerge,htraced⟩,?_⟩
    cases flow with
    | some exc => exact .inl ⟨_,rfl,by rintro r ⟨⟩⟩
    | none => exact finish_cases mutated htraced.stages

theorem resolve_cases (core : ResolveCore) (db : IdentityDb) (call : ResolveCall) :
    Handled core db call (core.resolve db call) := by
  have hrefused : ∀ (code message : String),
      Dropped [] (.ok ⟨none,[core.resolveError code (some call.matched.identity.primary) message
        call.matched],[]⟩) := by
    rintro code message r ⟨⟩
    exact ⟨rfl,rfl,by simp [resolveError]⟩
  unfold resolve
  split
  · exact .inl ⟨_,rfl,hrefused _ _⟩
  · exact .inl ⟨_,rfl,hrefused _ _⟩
  · rename_i h
    exact core.resolveAccepted_cases db call (.inl h)
  · rename_i h
    exact core.resolveAccepted_cases db call (.inr h)

section Outcome

variable {r : Resolution}

theorem emitted_cases (core : ResolveCore) (call : ResolveCall) (s : LinkState)
    (row : ResolvedRow) :
    (s.pendingCreated = false ∧ core.hasGateway = true ∧
      emitted core call s row = { outcomeOf s (.ok ⟨some row,s.errors,s.warnings⟩) with
        pending := s.pending.markResolvedForSource call.rowId call.clock.now
        closed := true }) ∨
      ((s.pendingCreated = true ∨ core.hasGateway = false) ∧
        emitted core call s row = outcomeOf s (.ok ⟨some row,s.errors,s.warnings⟩)) := by
  unfold emitted
  cases s.pendingCreated <;> cases core.hasGateway <;> simp

/-- The table after a row: its requests in order, then its links closed if it closes. -/
theorem resolve_pending (core : ResolveCore) (db : IdentityDb) (call : ResolveCall) :
    (core.resolve db call).pending =
      let requested := run (requestStep core.settings.pendingMaxAttempts call.clock.now)
        db.pending (core.resolve db call).requests
      if (core.resolve db call).closed then
        requested.markResolvedForSource call.rowId call.clock.now
      else requested := by
  rcases resolve_cases core db call with ⟨result,h,_⟩ | ⟨s,⟨_,_,_,_,ht⟩,⟨result,h,_⟩ | ⟨row,_,h⟩⟩
  · rw [h]
    rfl
  · rw [h]
    exact ht.pending
  · rw [h]
    rcases emitted_cases core call s row with ⟨_,_,h⟩ | ⟨_,h⟩
    · rw [h]
      simp only [outcomeOf, if_true, ht.pending]
    · rw [h]
      exact ht.pending

theorem resolve_requests (core : ResolveCore) (db : IdentityDb) (call : ResolveCall) :
    ∀ req ∈ (core.resolve db call).requests, core.MadeFor call req := by
  rcases resolve_cases core db call with ⟨result,h,_⟩ | ⟨s,⟨_,_,_,_,ht⟩,⟨result,h,_⟩ | ⟨row,_,h⟩⟩
  · simp [h, refused]
  · rw [h]
    exact ht.requests
  · rw [h]
    rcases emitted_cases core call s row with ⟨_,_,h⟩ | ⟨_,h⟩ <;> rw [h] <;> exact ht.requests

/-- A row closes its links only when it made no request, and then it is emitted without
errors and warnings. -/
theorem resolve_closed (h : (core.resolve db call).closed = true) :
    (core.resolve db call).requests = [] ∧
      ∃ row, (core.resolve db call).result = .ok ⟨some row,[],[]⟩ := by
  rcases resolve_cases core db call with ⟨result,he,_⟩ | ⟨s,⟨_,_,_,_,ht⟩,⟨result,he,_⟩ | ⟨row,hb,he⟩⟩
  · rw [he] at h
    cases h
  · rw [he] at h
    cases h
  · rcases emitted_cases core call s row with ⟨hc,_,hem⟩ | ⟨_,hem⟩
    · have hreq := ht.created.mp hc
      rw [he, hem]
      exact ⟨hreq,row,by simp [outcomeOf, ht.calm hreq hb.going, ht.quiet hreq]⟩
    · rw [he, hem] at h
      cases h

theorem resolve_quiet (hr : (core.resolve db call).result = .ok r)
    (hreq : (core.resolve db call).requests = []) : r.warnings = [] := by
  rcases resolve_cases core db call with ⟨result,he,hd⟩ | ⟨s,⟨_,_,_,_,ht⟩,⟨result,he,hd⟩ | ⟨row,_,he⟩⟩
  · rw [he] at hr
    exact (hd r hr).2.1
  · rw [he] at hr hreq
    exact (hd r hr).2.1.trans (ht.quiet hreq)
  · rcases emitted_cases core call s row with ⟨_,_,hem⟩ | ⟨_,hem⟩ <;>
    · rw [he, hem] at hr hreq
      cases hr
      exact ht.quiet hreq

theorem resolve_stage (hr : (core.resolve db call).result = .ok r) :
    ∀ e ∈ r.errors, e.stage = .resolve := by
  rcases resolve_cases core db call with ⟨result,he,hd⟩ | ⟨s,⟨_,_,_,_,ht⟩,⟨result,he,hd⟩ | ⟨row,_,he⟩⟩
  · rw [he] at hr
    exact (hd r hr).2.2
  · rw [he] at hr
    exact (hd r hr).2.2
  · rcases emitted_cases core call s row with ⟨_,_,hem⟩ | ⟨_,hem⟩ <;>
    · rw [he, hem] at hr
      cases hr
      exact ht.stages

/-- An emitted row comes from a finished loop. -/
theorem resolve_row {row : ResolvedRow} (hr : (core.resolve db call).result = .ok r)
    (hrow : r.row = some row) :
    ∃ s, Entered core db call s ∧ Built core call s row ∧
      (core.resolve db call).hits = s.hits := by
  rcases resolve_cases core db call with ⟨result,he,hd⟩ | ⟨s,hent,⟨result,he,hd⟩ | ⟨row',hb,he⟩⟩
  · rw [he] at hr
    simp [(hd r hr).1] at hrow
  · rw [he] at hr
    simp [(hd r hr).1] at hrow
  · rcases emitted_cases core call s row' with ⟨_,_,hem⟩ | ⟨_,hem⟩ <;>
    · rw [he, hem] at hr
      cases hr
      cases hrow
      exact ⟨s,hent,hb,by rw [he, hem]; rfl⟩

/-- A row that was not found is created; another one is skipped by its fingerprint or without
changes, or it is updated with its changes. -/
theorem decideOp_cases {matched : MatchedRow} {desired : Fields}
    {decided : ResolveOp × Fields} (h : core.decideOp matched desired = .ok decided) :
    (resolveDecisionStatus matched = .notFound ∧ decided = (.create,[])) ∨
      (resolveDecisionStatus matched ≠ .notFound ∧ decided = (.skip,[])) ∨
        (resolveDecisionStatus matched ≠ .notFound ∧ ∃ changes, decided = (.update,changes) ∧
          core.diffOf matched desired = .ok changes ∧ changes ≠ []) := by
  unfold decideOp at h
  split at h
  · next hs =>
    cases h
    exact .inl ⟨hs,rfl⟩
  · next hs =>
    split at h
    · cases h
      exact .inr (.inl ⟨hs,rfl⟩)
    · cases hd : core.diffOf matched desired with
      | error exc =>
        rw [hd] at h
        cases h
      | ok changes =>
        rw [hd] at h
        by_cases hc : changes = []
        · simp only [hc, bind, Except.bind, pure, Except.pure, if_true, Except.ok.injEq] at h
          exact .inr (.inl ⟨hs,h.symm⟩)
        · simp only [hc, bind, Except.bind, pure, Except.pure, if_false, Except.ok.injEq] at h
          exact .inr (.inr ⟨hs,changes,h.symm,rfl,hc⟩)

theorem decideOp_create {matched : MatchedRow} {desired : Fields}
    {decided : ResolveOp × Fields} (h : core.decideOp matched desired = .ok decided) :
    (decided.1 = .create ↔ resolveDecisionStatus matched = .notFound) ∧
      decided.1 ≠ .conflict := by
  rcases decideOp_cases h with ⟨hs,rfl⟩ | ⟨hs,rfl⟩ | ⟨hs,_,rfl,_,_⟩
  · exact ⟨by simp [hs],by simp⟩
  · exact ⟨by simp [hs],by simp⟩
  · exact ⟨by simp [hs],by simp⟩

/-- The parts of a built row that come straight from the matched row. -/
theorem buildResolvedRow_spec {matched : MatchedRow} {desired : Fields} {targetId : Value}
    {row : ResolvedRow} (h : core.buildResolvedRow matched desired targetId = .ok row) :
    row.rowRef = matched.rowRef ∧ row.identity = matched.identity ∧
      row.desiredState = desired ∧ row.targetId = targetId ∧
      core.decideOp matched desired = .ok (row.op,row.changes) := by
  simp only [buildResolvedRow, bind, Except.bind, pure, Except.pure] at h
  split at h
  · cases h
  · rename_i decided hop
    split at h
    · cases h
    · split at h
      · cases h
      · cases h
        exact ⟨rfl,rfl,rfl,rfl,hop⟩

theorem decideOp_update {matched : MatchedRow} {desired changes : Fields}
    (h : core.decideOp matched desired = .ok (.update,changes)) :
    core.diffOf matched desired = .ok changes ∧ changes ≠ [] := by
  rcases decideOp_cases h with ⟨_,heq⟩ | ⟨_,heq⟩ | ⟨_,diff,heq,hd,hne⟩
  · cases heq
  · cases heq
  · cases heq
    exact ⟨hd,hne⟩

/-- The merge policy only adds fields: a field that the row sets keeps its value. -/
theorem applyMergePolicy_keeps {matched : MatchedRow} {merged : Fields} {mutated : List String}
    (h : core.applyMergePolicy matched = .ok (merged,mutated))
    (hkeys : (Dict.keys matched.desiredState).Nodup) {field : String}
    (hf : (Fields.read matched.desiredState field).isNull = false) :
    Fields.read merged field = Fields.read matched.desiredState field := by
  have hupdate : ∀ d : Fields, Fields.read (Dict.update d matched.desiredState) field =
      Fields.read matched.desiredState field := by
    intro d
    unfold Fields.read at hf ⊢
    rw [Dict.get?_update d hkeys]
    cases hv : Dict.get? matched.desiredState field with
    | none =>
      rw [hv] at hf
      cases hf
    | some v => rfl
  unfold applyMergePolicy at h
  split at h
  · cases h
    rfl
  · simp only [bind, Except.bind, pure, Except.pure] at h
    split at h
    · cases h
    · split at h
      · cases h
        rfl
      · cases h
        exact hupdate _

end Outcome

end ResolveCore
end NexusEtl
