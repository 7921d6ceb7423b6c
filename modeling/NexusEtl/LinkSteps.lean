import NexusEtl.ResolveSpec

/-!
# The loop over the link rules, step by step

A rule leaves its field alone, sets it, stores a pending link, rejects the row
or raises. The steps of a run are the rules that the loop came to, each with the
state it found; what the loop leaves follows from them.
-/

set_option autoImplicit false

namespace NexusEtl
open NexusEtl.Library

namespace ResolveCore

variable (core : ResolveCore) (db : IdentityDb) (call : ResolveCall)

/-- What one rule can do. -/
inductive LinkStep (rule : LinkFieldRule) (s : LinkState) : LinkFlow × LinkState → Prop
  | skipped : LinkStep rule s (.next,s)
  | found (lookupKey : Option String) (id : String) :
      LinkStep rule s (.next,setLink rule lookupKey id s)
  | stored (lookupKey reason : Option String) :
      LinkStep rule s (.next,core.createPendingLink call rule lookupKey reason s)
  | storedTopology (lookupKey reason : Option String) :
      LinkStep rule s
        (if (core.createPendingLink call rule lookupKey reason s).shouldStop then .stop else .next,
          core.createPendingLink call rule lookupKey reason s)
  | conflict (reason : Option String) : LinkStep rule s (.stop,core.linkConflict call rule reason s)
  | raised (exc : PyException) : LinkStep rule s (.raised exc,s)

theorem settleLink_step (rule : LinkFieldRule) (lookupKey resolvedId reason : Option String)
    (s : LinkState) :
    LinkStep core call rule s (core.settleLink call rule lookupKey resolvedId reason s) := by
  unfold settleLink
  split
  · exact .found lookupKey _
  · split
    · exact .conflict reason
    · exact .stored lookupKey reason

theorem resolveLink_step (rule : LinkFieldRule) (s : LinkState) :
    LinkStep core call rule s (core.resolveLink db call rule s) := by
  unfold resolveLink
  split
  · exact .skipped
  · dsimp only
    split
    · exact .raised _
    · exact core.settleLink_step call rule _ _ _ s
    · split
      · exact core.settleLink_step call rule _ _ _ s
      · exact .conflict _
      · exact .storedTopology _ _

/-- The rules that the loop comes to, each with the state that it finds. -/
def visited : List LinkFieldRule → LinkState → List (LinkFieldRule × LinkState)
  | [], _ => []
  | rule::rules, s => (rule,s)::match core.resolveLink db call rule s with
    | (.next,s') => visited rules s'
    | (.stop,_) => []
    | (.raised _,_) => []

/-- How a visited rule leaves the loop. -/
def flowAt (p : LinkFieldRule × LinkState) : LinkFlow := (core.resolveLink db call p.1 p.2).1

/-- The request of the pending link that a visited rule stores. -/
def requestAt (p : LinkFieldRule × LinkState) : Option PendingRequest :=
  ((core.resolveLink db call p.1 p.2).2.requests.drop p.2.requests.length).head?

/-- Whether a visited rule stores a pending link, and whether that link reaches the maximum. -/
def fateAt (p : LinkFieldRule × LinkState) : Option Bool :=
  (core.requestAt db call p).map fun req =>
    (p.2.pending.request core.settings.pendingMaxAttempts req call.clock.now).2

@[simp] theorem setLink_requests (rule : LinkFieldRule) (lookupKey : Option String) (id : String)
    (s : LinkState) : (setLink rule lookupKey id s).requests = s.requests := by
  unfold setLink
  dsimp only
  split <;> rfl

@[simp] theorem setLink_pending (rule : LinkFieldRule) (lookupKey : Option String) (id : String)
    (s : LinkState) : (setLink rule lookupKey id s).pending = s.pending := by
  unfold setLink
  dsimp only
  split <;> rfl

@[simp] theorem setLink_shouldStop (rule : LinkFieldRule) (lookupKey : Option String) (id : String)
    (s : LinkState) : (setLink rule lookupKey id s).shouldStop = s.shouldStop := by
  unfold setLink
  dsimp only
  split <;> rfl

theorem setLink_hits (rule : LinkFieldRule) (lookupKey : Option String) (id : String)
    (s : LinkState) :
    (setLink rule lookupKey id s).hits = s.hits ++ [⟨rule,lookupKey.getD "",id⟩] := by
  unfold setLink
  dsimp only
  split <;> rfl

theorem setLink_frame {rule : LinkFieldRule} {lookupKey : Option String} {id field : String}
    {s : LinkState} (h : field ≠ rule.field) :
    Fields.read (setLink rule lookupKey id s).desired field = Fields.read s.desired field := by
  unfold setLink
  dsimp only
  split
  · rfl
  · exact Fields.read_set_ne _ _ (Ne.symm h)

section Created
variable (rule : LinkFieldRule) (lookupKey reason : Option String) (s : LinkState)

theorem createPendingLink_requests :
    (core.createPendingLink call rule lookupKey reason s).requests =
      s.requests ++ [core.pendingRequest call rule lookupKey s.desired] := by
  unfold createPendingLink
  dsimp only
  split <;> rfl

theorem createPendingLink_desired :
    (core.createPendingLink call rule lookupKey reason s).desired = s.desired := by
  unfold createPendingLink
  dsimp only
  split <;> rfl

theorem createPendingLink_hits :
    (core.createPendingLink call rule lookupKey reason s).hits = s.hits := by
  unfold createPendingLink
  dsimp only
  split <;> rfl

theorem createPendingLink_shouldStop :
    (core.createPendingLink call rule lookupKey reason s).shouldStop =
      ((s.pending.request core.settings.pendingMaxAttempts
        (core.pendingRequest call rule lookupKey s.desired) call.clock.now).2 ||
          !core.settings.pendingAllowPartial) := by
  unfold createPendingLink
  dsimp only
  split
  · rename_i h
    rw [h, Bool.true_or]
  · rename_i h
    rw [Bool.eq_false_of_not_eq_true h, Bool.false_or]

end Created

/-- The flag after a step that stores a link with this fate, or none. -/
def flagAfter (before : Bool) : Option Bool → Bool
  | none => before
  | some reached => reached || !core.settings.pendingAllowPartial

/-- A step that stores a link or goes on sets the flag by its fate; a step that stops sets it. -/
theorem shouldStop_step (p : LinkFieldRule × LinkState) :
    (core.flowAt db call p = .next → (core.resolveLink db call p.1 p.2).2.shouldStop =
        core.flagAfter p.2.shouldStop (core.fateAt db call p)) ∧
      (core.flowAt db call p = .stop → (core.resolveLink db call p.1 p.2).2.shouldStop = true) := by
  have hstep := core.resolveLink_step db call p.1 p.2
  unfold flowAt fateAt requestAt
  generalize core.resolveLink db call p.1 p.2 = out at hstep
  cases hstep with
  | skipped => simp [flagAfter]
  | found lookupKey id => simp [flagAfter]
  | stored lookupKey reason =>
    simp [flagAfter, createPendingLink_requests, createPendingLink_shouldStop]
  | storedTopology lookupKey reason =>
    refine ⟨fun _ => ?_,fun hstop => ?_⟩
    · simp [flagAfter, createPendingLink_requests, createPendingLink_shouldStop]
    · by_contra hflag
      rw [if_neg hflag] at hstop
      cases hstop
  | conflict reason => simp [linkConflict]
  | raised exc => simp

theorem requests_step (p : LinkFieldRule × LinkState) :
    (core.resolveLink db call p.1 p.2).2.requests.length =
      p.2.requests.length + (core.fateAt db call p).toList.length := by
  have hstep := core.resolveLink_step db call p.1 p.2
  unfold fateAt requestAt
  generalize core.resolveLink db call p.1 p.2 = out at hstep
  cases hstep with
  | skipped => simp
  | found lookupKey id => simp
  | stored lookupKey reason => simp [createPendingLink_requests]
  | storedTopology lookupKey reason => simp [createPendingLink_requests]
  | conflict reason => simp [linkConflict]
  | raised exc => simp

/-- The flag after all the links of a run: the last stored link decides. -/
def flagAfterAll (before : Bool) (fates : List Bool) : Bool :=
  core.flagAfter before fates.getLast?

theorem flagAfterAll_cons (before : Bool) (fate : Option Bool) (fates : List Bool) :
    core.flagAfterAll (core.flagAfter before fate) fates =
      core.flagAfterAll before (fate.toList ++ fates) := by
  cases fates with
  | nil => cases fate <;> rfl
  | cons b bs =>
    rw [flagAfterAll, flagAfterAll, List.getLast?_append_cons]
    rfl

/-- The end of the loop in terms of its steps. -/
theorem resolveLinkLoop_end (rules : List LinkFieldRule) (s : LinkState) :
    ((core.resolveLinkLoop db call rules s).1 = none ↔
      ∀ p ∈ core.visited db call rules s, ∀ exc, core.flowAt db call p ≠ .raised exc) ∧
    ((core.resolveLinkLoop db call rules s).1 = none →
      ((core.resolveLinkLoop db call rules s).2.shouldStop = true ↔
        (∃ p ∈ core.visited db call rules s, core.flowAt db call p = .stop) ∨
        core.flagAfterAll s.shouldStop
          ((core.visited db call rules s).filterMap (core.fateAt db call)) = true)) := by
  induction rules generalizing s with
  | nil => simp [resolveLinkLoop, visited, flagAfterAll, flagAfter]
  | cons rule rules ih =>
    have hflag := core.shouldStop_step db call (rule,s)
    cases hstep : core.resolveLink db call rule s with
    | mk flow s' =>
    have hflow : core.flowAt db call (rule,s) = flow := by rw [flowAt, hstep]
    rw [hflow, hstep] at hflag
    cases flow with
    | next =>
      have hloop : core.resolveLinkLoop db call (rule::rules) s =
          core.resolveLinkLoop db call rules s' := by rw [resolveLinkLoop, hstep]
      have hvisited : core.visited db call (rule::rules) s =
          (rule,s)::core.visited db call rules s' := by rw [visited, hstep]
      obtain ⟨ihnone,ihflag⟩ := ih s'
      rw [hloop, hvisited]
      constructor
      · rw [ihnone]
        simp [hflow]
      · intro hnone
        have hfates : ((rule,s)::core.visited db call rules s').filterMap (core.fateAt db call) =
            (core.fateAt db call (rule,s)).toList ++
              (core.visited db call rules s').filterMap (core.fateAt db call) := by
          rw [List.filterMap_cons]
          cases core.fateAt db call (rule,s) <;> rfl
        rw [ihflag hnone, hfates, ← flagAfterAll_cons, ← hflag.1 rfl]
        simp [hflow]
    | stop =>
      have hloop : core.resolveLinkLoop db call (rule::rules) s = (none,s') := by
        rw [resolveLinkLoop, hstep]
      have hvisited : core.visited db call (rule::rules) s = [(rule,s)] := by
        rw [visited, hstep]
      rw [hloop, hvisited]
      refine ⟨by simp [hflow],fun _ => ?_⟩
      exact ⟨fun _ => .inl ⟨(rule,s),List.mem_singleton.mpr rfl,hflow⟩,fun _ => hflag.2 rfl⟩
    | raised exc =>
      have hloop : core.resolveLinkLoop db call (rule::rules) s = (some exc,s') := by
        rw [resolveLinkLoop, hstep]
      have hvisited : core.visited db call (rule::rules) s = [(rule,s)] := by
        rw [visited, hstep]
      rw [hloop, hvisited]
      simp [hflow]

/-- A rule that stops is the last one, and the flag is set after it. -/
theorem resolveLinkLoop_of_stop {rules : List LinkFieldRule} {s : LinkState}
    {p : LinkFieldRule × LinkState} (hp : p ∈ core.visited db call rules s)
    (hstop : core.flowAt db call p = .stop) :
    (core.resolveLinkLoop db call rules s).1 = none ∧
      (core.resolveLinkLoop db call rules s).2.shouldStop = true := by
  have hnone : (core.resolveLinkLoop db call rules s).1 = none := by
    induction rules generalizing s with
    | nil => cases hp
    | cons rule rules ih =>
      cases hstep : core.resolveLink db call rule s with
      | mk flow s' =>
      rw [visited, hstep] at hp
      rw [resolveLinkLoop, hstep]
      rcases List.mem_cons.mp hp with heq | hp
      · rw [heq, flowAt, hstep] at hstop
        have hflow : flow = .stop := hstop
        rw [hflow]
      · cases flow with
        | next => exact ih hp
        | stop => rfl
        | raised exc => cases hp
  exact ⟨hnone,((core.resolveLinkLoop_end db call rules s).2 hnone).mpr (.inl ⟨p,hp,hstop⟩)⟩

/-- The state in which a row comes to its link rules, and the fields that the merge changed. -/
def linkStart : Option (LinkState × List String) :=
  if (resolveDecisionStatus call.matched == .matched ||
      resolveDecisionStatus call.matched == .notFound) && core.hasGateway then
    match core.applyMergePolicy call.matched with
    | .ok (desired,mutated) => some (LinkState.start db.pending desired,mutated)
    | .error _ => none
  else none

/-- The link rules that a row comes to. -/
def linkTrace : List (LinkFieldRule × LinkState) :=
  match core.linkStart db call with
  | none => []
  | some (s,_) => core.visited db call core.linkRules s

/-- For each pending link that a row stores, in order, whether it reaches the maximum. -/
def linkFates : List Bool := (core.linkTrace db call).filterMap (core.fateAt db call)

theorem resolve_of_linkStart {s : LinkState} {mutated : List String}
    (h : core.linkStart db call = some (s,mutated)) :
    core.resolve db call = match core.resolveLinkLoop db call core.linkRules s with
      | (some exc,s') => outcomeOf s' (.error exc)
      | (none,s') => core.finish call mutated s' := by
  unfold linkStart at h
  by_cases hok : ((resolveDecisionStatus call.matched == .matched ||
      resolveDecisionStatus call.matched == .notFound) && core.hasGateway) = true
  · rw [if_pos hok] at h
    obtain ⟨hstatus,hgateway⟩ := (Bool.and_eq_true ..).mp hok
    have haccepted : core.resolve db call = core.resolveAccepted db call := by
      unfold resolve
      rcases (Bool.or_eq_true ..).mp hstatus with hs | hs <;> rw [beq_iff_eq.mp hs]
    cases hm : core.applyMergePolicy call.matched with
    | error exc =>
      rw [hm] at h
      cases h
    | ok merged =>
      obtain ⟨desired,fields⟩ := merged
      rw [hm] at h
      obtain ⟨hs,hmutated⟩ := Prod.mk.inj (Option.some.inj h)
      have hlinks : core.resolveLinks db call (LinkState.start db.pending desired) =
          core.resolveLinkLoop db call core.linkRules (LinkState.start db.pending desired) := by
        unfold resolveLinks
        by_cases hrules : core.linkRules = []
        · rw [if_pos hrules, hrules]
          rfl
        · rw [if_neg hrules, hgateway]
          rfl
      rw [hs] at hlinks
      rcases hloop : core.resolveLinkLoop db call core.linkRules s with ⟨_ | exc,s'⟩ <;>
        simp only [haccepted, resolveAccepted, hm, hlinks, hs, hloop, hmutated]
  · rw [if_neg hok] at h
    cases h

/-- A row that passed its links is rejected all the same: a changed field fails the sink or
the target identifier is missing. -/
def rejects (s : LinkState) (mutated : List String) : Bool :=
  !(core.sinkIssues s.desired (mutated ++ s.changed)).isEmpty ||
    !(resolveTargetId call.matched call.targetIdMap).truthy

/-- `resolve` returns, and there is no row. -/
def ReturnsNone (outcome : ResolveOutcome) : Prop :=
  ∃ resolution, outcome.result = .ok resolution ∧ resolution.row = none

theorem finish_returnsNone_iff (mutated : List String) (s : LinkState) :
    ReturnsNone (core.finish call mutated s) ↔
      s.shouldStop = true ∨ core.rejects call s mutated = true := by
  unfold finish
  by_cases hstop : s.shouldStop = true
  · rw [if_pos hstop]
    exact ⟨fun _ => .inl hstop,fun _ => ⟨_,rfl,rfl⟩⟩
  rw [if_neg hstop]
  by_cases hissues : core.sinkIssues s.desired (mutated ++ s.changed) = []
  · by_cases hid : (resolveTargetId call.matched call.targetIdMap).truthy = true
    · have hrej : core.rejects call s mutated = false := by simp [rejects, hissues, hid]
      dsimp only
      rw [if_neg (not_not_intro hissues), hid, hrej]
      constructor
      · rintro ⟨resolution,hres,hrow⟩
        cases hb : core.buildResolvedRow call.matched s.desired
            (resolveTargetId call.matched call.targetIdMap) with
        | error exc =>
          simp only [hb] at hres
          cases hres
        | ok row =>
          simp only [hb, Bool.not_true, Bool.false_eq_true, if_false] at hres
          by_cases hclose : (!s.pendingCreated && core.hasGateway) = true
          · rw [if_pos hclose] at hres
            cases hres
            cases hrow
          · rw [if_neg hclose] at hres
            cases hres
            cases hrow
      · rintro (h | h)
        · exact absurd h hstop
        · cases h
    · have hrej : core.rejects call s mutated = true := by simp [rejects, hid]
      dsimp only
      rw [if_neg (not_not_intro hissues), Bool.eq_false_of_not_eq_true hid, hrej]
      exact ⟨fun _ => .inr rfl,fun _ => ⟨_,rfl,rfl⟩⟩
  · have hrej : core.rejects call s mutated = true := by simp [rejects, hissues]
    dsimp only
    rw [if_pos hissues, hrej]
    exact ⟨fun _ => .inr rfl,fun _ => ⟨_,rfl,rfl⟩⟩

end ResolveCore
end NexusEtl
