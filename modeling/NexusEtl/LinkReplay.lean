import NexusEtl.ReplayOverrides
import NexusEtl.RejectedRows

/-!
# A resolved link in a replay

The payload of a pending link holds the desired state as the earlier rules left
it. A replay asks for a link that was answered once more, under the key values
of that state and without the metadata and the source record of the row.
-/

set_option autoImplicit false

namespace NexusEtl
open NexusEtl.Library

namespace PendingCodec

theorem deserializePendingMatchedRow_desired {payload : Fields} {parsed : MatchedRow × Fields}
    (h : deserializePendingMatchedRow payload = some parsed) :
    asDict (Fields.read payload "desired_state") = some parsed.1.desiredState := by
  simp only [deserializePendingMatchedRow, bind, Option.bind_eq_some_iff] at h
  obtain ⟨desired,hdesired,_,_,_,_,_,_,_,_,_,_,_,_,_,_,h⟩ := h
  split at h
  · cases h
  · cases h
    exact hdesired

/-- A row is read back with the desired state that was written. -/
theorem loadPayload_desired {matched row : MatchedRow} {desired metadata : Fields}
    {item : TransformResult MatchedRow}
    (h : loadPayload (serialize matched desired metadata) = .ok (some item))
    (hrow : item.row = some row) : row.desiredState = desired := by
  simp only [loadPayload, serialize, Except.ok.injEq, Option.map_eq_some_iff] at h
  obtain ⟨parsed,hparsed,rfl⟩ := h
  cases hrow
  have hread := deserializePendingMatchedRow_desired hparsed
  exact (Option.some.inj hread).symm

end PendingCodec

/-- The call that resolves a row which was read back, beside the same batch. -/
def ResolveCall.replay (first : ResolveCall) (item : TransformResult MatchedRow)
    (row : MatchedRow) (later : Clock) : ResolveCall :=
  { matched := row, sourceRecord := item.record, targetIdMap := []
    metadata := item.metadata, batchIndex := first.batchIndex, clock := later }

/-- What comes of the lookup of a rule. -/
inductive LinkVerdict
  | answered (id : String)
  | waits
  | refused
  deriving DecidableEq, Repr

namespace ResolveCore

variable (core : ResolveCore) (db : IdentityDb) (call : ResolveCall)

def lookupOf (rule : LinkFieldRule) (desired : Fields) : LinkLookupOutcome :=
  resolveWithRules rule (extractKeyValues desired rule.resolveKeys
    (extractLinkKeyOverrides call.metadata rule.field)) desired db call.batchIndex
    rule.resolveKeys none

/-- An identifier settles the link; without one the rule says what becomes of the row. -/
def settled (rule : LinkFieldRule) : Option String → LinkVerdict
  | some id => .answered id
  | none => match rule.onUnresolved with
    | .hardError => .refused
    | .pending => .waits

/-- The verdict on a rule in a desired state: the lookup, then the topology. -/
def linkVerdict (rule : LinkFieldRule) (desired : Fields) : LinkVerdict :=
  match core.topologyDecision call rule (lookupOf db call rule desired) with
  | .error _ => .refused
  | .ok none => settled rule (lookupOf db call rule desired).resolvedId
  | .ok (some decision) => match decision.action with
    | .legacy => settled rule decision.resolvedId
    | .hardError => .refused
    | .pending => .waits

/-- The hit of a visited rule whose link was answered. -/
def hitAt (p : LinkFieldRule × LinkState) : Option LinkHit :=
  ((core.resolveLink db call p.1 p.2).2.hits.drop p.2.hits.length).head?

/-- What a rule that is not skipped does, by its verdict. -/
inductive VerdictStep (rule : LinkFieldRule) (s : LinkState) :
    LinkVerdict → LinkFlow × LinkState → Prop
  | answered (lookupKey : Option String) (id : String) :
      VerdictStep rule s (.answered id) (.next,setLink rule lookupKey id s)
  | waits (flow : LinkFlow) (lookupKey reason : Option String) :
      VerdictStep rule s .waits (flow,core.createPendingLink call rule lookupKey reason s)
  | conflict (reason : Option String) :
      VerdictStep rule s .refused (.stop,core.linkConflict call rule reason s)
  | raised (exc : PyException) : VerdictStep rule s .refused (.raised exc,s)

theorem settleLink_verdict (rule : LinkFieldRule) (lookupKey resolvedId reason : Option String)
    (s : LinkState) :
    VerdictStep core call rule s (settled rule resolvedId)
      (core.settleLink call rule lookupKey resolvedId reason s) := by
  unfold settled settleLink
  cases resolvedId with
  | some id => exact .answered lookupKey id
  | none => cases rule.onUnresolved with
    | hardError => exact .conflict reason
    | pending => exact .waits .next lookupKey reason

theorem resolveLink_verdict {rule : LinkFieldRule} {s : LinkState}
    (h : isSkipped rule s.desired = false) :
    VerdictStep core call rule s (core.linkVerdict db call rule s.desired)
      (core.resolveLink db call rule s) := by
  unfold resolveLink linkVerdict
  rw [if_neg (by rw [h]; exact Bool.false_ne_true)]
  show VerdictStep core call rule s _ (match core.topologyDecision call rule
    (lookupOf db call rule s.desired) with | .error exc => _ | .ok none => _ | .ok (some d) => _)
  cases core.topologyDecision call rule (lookupOf db call rule s.desired) with
  | error exc => exact .raised exc
  | ok decision => cases decision with
    | none => exact core.settleLink_verdict call rule _ _ _ s
    | some decision =>
      dsimp only
      cases decision.action with
      | legacy => exact core.settleLink_verdict call rule _ _ _ s
      | hardError => exact .conflict _
      | pending => exact .waits _ _ _

/-- The rules of a list pass from one state to another when each goes on to the next. -/
inductive Passes : List LinkFieldRule → LinkState → LinkState → Prop
  | nil (s : LinkState) : Passes [] s s
  | cons {rule : LinkFieldRule} {rules : List LinkFieldRule} {s s₁ s₂ : LinkState}
      (head : core.resolveLink db call rule s = (.next,s₁)) (tail : Passes rules s₁ s₂) :
      Passes (rule::rules) s s₂

variable {core db call}

theorem Passes.unique {rules : List LinkFieldRule} {s s₁ s₂ : LinkState}
    (h : Passes core db call rules s s₁) (h' : Passes core db call rules s s₂) : s₁ = s₂ := by
  induction h with
  | nil s =>
    cases h'
    rfl
  | cons head tail ih =>
    cases h' with
    | cons head' tail' =>
      rw [head] at head'
      cases head'
      exact ih tail'

theorem Passes.split {before after : List LinkFieldRule} {s s₂ : LinkState}
    (h : Passes core db call (before ++ after) s s₂) :
    ∃ s₁, Passes core db call before s s₁ ∧ Passes core db call after s₁ s₂ := by
  induction before generalizing s with
  | nil => exact ⟨s,.nil s,h⟩
  | cons rule before ih =>
    cases h with
    | cons head tail =>
      obtain ⟨s₁,hbefore,hafter⟩ := ih tail
      exact ⟨s₁,.cons head hbefore,hafter⟩

/-- A visited rule stands in the list, and the rules before it passed to its state. -/
theorem passes_of_mem_visited {rules : List LinkFieldRule} {s : LinkState}
    {p : LinkFieldRule × LinkState} (h : p ∈ core.visited db call rules s) :
    ∃ before after, rules = before ++ p.1::after ∧ Passes core db call before s p.2 := by
  induction rules generalizing s with
  | nil => cases h
  | cons rule rules ih =>
    rw [visited] at h
    rcases List.mem_cons.mp h with rfl | h
    · exact ⟨[],rules,rfl,.nil s⟩
    · cases hstep : core.resolveLink db call rule s with
      | mk flow s₁ =>
      rw [hstep] at h
      cases flow with
      | next =>
        obtain ⟨before,after,rfl,hpass⟩ := ih h
        exact ⟨rule::before,after,rfl,.cons hstep hpass⟩
      | stop => cases h
      | raised exc => cases h

theorem mem_of_mem_visited {rules : List LinkFieldRule} {s : LinkState}
    {p : LinkFieldRule × LinkState} (h : p ∈ core.visited db call rules s) : p.1 ∈ rules := by
  obtain ⟨before,after,hlist,_⟩ := passes_of_mem_visited h
  rw [hlist]
  exact List.mem_append_right _ List.mem_cons_self

/-- Two states agree on a field: its value and the links that are asked for under it. -/
def SameAt (field : String) (s s₁ : LinkState) : Prop :=
  Fields.read s₁.desired field = Fields.read s.desired field ∧
    ∀ req : PendingRequest, req.field = field → (req ∈ s₁.requests ↔ req ∈ s.requests)

theorem SameAt.refl (field : String) (s : LinkState) : SameAt field s s :=
  ⟨rfl,fun _ _ => Iff.rfl⟩

theorem SameAt.trans {field : String} {s s₁ s₂ : LinkState} (h : SameAt field s s₁)
    (h' : SameAt field s₁ s₂) : SameAt field s s₂ :=
  ⟨h'.1.trans h.1,fun req hreq => (h'.2 req hreq).trans (h.2 req hreq)⟩

theorem setLink_sameAt {rule : LinkFieldRule} {lookupKey : Option String} {id field : String}
    {s : LinkState} (h : field ≠ rule.field) : SameAt field s (setLink rule lookupKey id s) :=
  ⟨setLink_frame h,fun _ _ => by rw [setLink_requests]⟩

theorem createPendingLink_sameAt {rule : LinkFieldRule} {lookupKey reason : Option String}
    {field : String} {s : LinkState} (h : field ≠ rule.field) :
    SameAt field s (core.createPendingLink call rule lookupKey reason s) := by
  refine ⟨by rw [createPendingLink_desired],fun req hreq => ?_⟩
  rw [createPendingLink_requests, List.mem_append, List.mem_singleton]
  refine ⟨fun hmem => hmem.resolve_right fun heq => h ?_,.inl⟩
  rw [← hreq, heq]
  rfl

/-- A rule touches its own field only. -/
theorem resolveLink_sameAt {rule : LinkFieldRule} (s : LinkState) {field : String}
    (h : field ≠ rule.field) : SameAt field s (core.resolveLink db call rule s).2 := by
  have hstep := core.resolveLink_step db call rule s
  generalize core.resolveLink db call rule s = out at hstep
  cases hstep with
  | skipped => exact .refl field s
  | found lookupKey id => exact setLink_sameAt h
  | stored lookupKey reason => exact createPendingLink_sameAt h
  | storedTopology lookupKey reason => exact createPendingLink_sameAt h
  | conflict reason => exact .refl field s
  | raised exc => exact .refl field s

theorem Passes.sameAt {rules : List LinkFieldRule} {s s₁ : LinkState}
    (h : Passes core db call rules s s₁) {field : String}
    (hfield : ∀ rule ∈ rules, field ≠ rule.field) : SameAt field s s₁ := by
  induction h with
  | nil s => exact .refl field s
  | @cons rule rules s s₁ s₂ head tail ih =>
    have hhead : SameAt field s (core.resolveLink db call rule s).2 :=
      resolveLink_sameAt s (hfield rule List.mem_cons_self)
    rw [head] at hhead
    exact hhead.trans (ih fun r hr => hfield r (List.mem_cons_of_mem _ hr))

theorem resolveLinkLoop_sameAt {rules : List LinkFieldRule} (s : LinkState) {field : String}
    (hfield : ∀ rule ∈ rules, field ≠ rule.field) :
    SameAt field s (core.resolveLinkLoop db call rules s).2 := by
  induction rules generalizing s with
  | nil => exact .refl field s
  | cons rule rules ih =>
    have hhead : SameAt field s (core.resolveLink db call rule s).2 :=
      resolveLink_sameAt s (hfield rule List.mem_cons_self)
    rw [resolveLinkLoop]
    cases hstep : core.resolveLink db call rule s with
    | mk flow s₁ =>
    rw [hstep] at hhead
    cases flow with
    | next => exact hhead.trans (ih s₁ fun r hr => hfield r (List.mem_cons_of_mem _ hr))
    | stop => exact hhead
    | raised exc => exact hhead

/-- Where each rule has a field of its own, the loop does to the field of a rule what that rule
does to it, if the loop comes to it. -/
theorem resolveLinkLoop_at {rules : List LinkFieldRule} {rule : LinkFieldRule}
    (hmem : rule ∈ rules) (hfields : (rules.map LinkFieldRule.field).Nodup) (s : LinkState) :
    ((∀ s', (rule,s') ∉ core.visited db call rules s) ∧
        SameAt rule.field s (core.resolveLinkLoop db call rules s).2) ∨
      ∃ s', (∀ s'', (rule,s'') ∈ core.visited db call rules s ↔ s'' = s') ∧
        SameAt rule.field s s' ∧ SameAt rule.field (core.resolveLink db call rule s').2
          (core.resolveLinkLoop db call rules s).2 := by
  induction rules generalizing s with
  | nil => cases hmem
  | cons r rules ih =>
    obtain ⟨hr,hrules⟩ := List.nodup_cons.mp hfields
    have hne : ∀ q ∈ rules, r.field ≠ q.field := fun q hq he =>
      hr (he ▸ List.mem_map_of_mem hq)
    by_cases hrule : rule = r
    · subst hrule
      refine .inr ⟨s,fun s'' => ?_,.refl _ s,?_⟩
      · rw [visited, List.mem_cons]
        constructor
        · rintro (heq | hin)
          · exact (Prod.mk.inj heq).2
          · split at hin
            · exact absurd rfl (hne rule (mem_of_mem_visited hin))
            · exact absurd hin List.not_mem_nil
            · exact absurd hin List.not_mem_nil
        · rintro rfl
          exact .inl rfl
      · rw [resolveLinkLoop]
        cases hstep : core.resolveLink db call rule s with
        | mk flow s₁ =>
        cases flow with
        | next => exact resolveLinkLoop_sameAt s₁ hne
        | stop => exact .refl _ s₁
        | raised exc => exact .refl _ s₁
    · have hin : rule ∈ rules := (List.mem_cons.mp hmem).resolve_left hrule
      have hhead : SameAt rule.field s (core.resolveLink db call r s).2 :=
        resolveLink_sameAt s fun he => hne rule hin he.symm
      have hskip (s'' : LinkState) (tail : List (LinkFieldRule × LinkState)) :
          (rule,s'') ∈ (r,s)::tail ↔ (rule,s'') ∈ tail := by
        rw [List.mem_cons]
        exact ⟨fun h => h.resolve_left fun heq => hrule (Prod.mk.inj heq).1,.inr⟩
      rw [resolveLinkLoop, visited]
      cases hstep : core.resolveLink db call r s with
      | mk flow s₁ =>
      rw [hstep] at hhead
      cases flow with
      | next =>
        simp only [hskip]
        rcases ih hin hrules s₁ with ⟨hnot,hsame⟩ | ⟨s',hiff,hbefore,hafter⟩
        · exact .inl ⟨hnot,hhead.trans hsame⟩
        · exact .inr ⟨s',hiff,hhead.trans hbefore,hafter⟩
      | stop =>
        refine .inl ⟨fun s' h => ?_,hhead⟩
        exact absurd ((hskip s' []).mp h) List.not_mem_nil
      | raised exc =>
        refine .inl ⟨fun s' h => ?_,hhead⟩
        exact absurd ((hskip s' []).mp h) List.not_mem_nil

/-- An identifier as the field of a link holds it is an integer or a text. -/
theorem coerceResolved_cases (id : String) (rule : LinkFieldRule) :
    (∃ n, coerceResolved id rule = .int n) ∨ ∃ t, coerceResolved id rule = .str t := by
  unfold coerceResolved
  split
  · split
    · exact .inl ⟨_,rfl⟩
    · exact .inr ⟨_,rfl⟩
  · exact .inr ⟨_,rfl⟩

theorem pyEq_coerceResolved_self (id : String) (rule : LinkFieldRule) :
    Value.pyEq (coerceResolved id rule) (coerceResolved id rule) = true := by
  rcases coerceResolved_cases id rule with ⟨n,h⟩ | ⟨t,h⟩ <;> rw [h] <;>
    simp [Value.pyEq, Value.number?]

/-- What is equal to one coerced identifier is equal to another only when they are the same. -/
theorem pyEq_coerceResolved {current : Value} {id other : String} {rule : LinkFieldRule}
    (h : Value.pyEq current (coerceResolved id rule) = true) :
    Value.pyEq current (coerceResolved other rule) = true ↔
      coerceResolved id rule = coerceResolved other rule := by
  rcases coerceResolved_cases id rule with ⟨n,hid⟩ | ⟨t,hid⟩ <;>
    rcases coerceResolved_cases other rule with ⟨m,hother⟩ | ⟨u,hother⟩ <;>
    rw [hid] at h <;> rw [hid, hother] <;>
    cases current <;> simp_all [Value.pyEq, Value.number?]

theorem not_null_of_pyEq {v : Value} {id : String} {rule : LinkFieldRule}
    (h : Value.pyEq v (coerceResolved id rule) = true) : v.isNull = false := by
  cases v with
  | null => rcases coerceResolved_cases id rule with ⟨n,hid⟩ | ⟨t,hid⟩ <;> rw [hid] at h <;>
      simp [Value.pyEq, Value.number?] at h
  | _ => rfl

/-- The field of an answered link has a given value exactly when the identifier has. -/
theorem read_setLink_iff (rule : LinkFieldRule) (lookupKey : Option String) (id other : String)
    (s : LinkState) :
    Value.pyEq (Fields.read (setLink rule lookupKey id s).desired rule.field)
        (coerceResolved other rule) = true ↔
      coerceResolved id rule = coerceResolved other rule := by
  unfold setLink
  dsimp only
  split
  · rename_i h
    exact pyEq_coerceResolved h
  · rw [Fields.read_set_self]
    exact pyEq_coerceResolved (pyEq_coerceResolved_self id rule)

/-- A rule with a hit found it and set its field. -/
theorem resolveLink_of_hitAt {p : LinkFieldRule × LinkState} {hit : LinkHit}
    (h : core.hitAt db call p = some hit) :
    isSkipped p.1 p.2.desired = false ∧ ∃ lookupKey,
      core.resolveLink db call p.1 p.2 = (.next,setLink p.1 lookupKey hit.resolvedId p.2) := by
  constructor
  · by_contra hskip
    have hstep : core.resolveLink db call p.1 p.2 = (.next,p.2) := by
      rw [resolveLink, if_pos (Bool.eq_true_of_not_eq_false hskip)]
    simp [hitAt, hstep] at h
  · have hstep := core.resolveLink_step db call p.1 p.2
    unfold hitAt at h
    generalize core.resolveLink db call p.1 p.2 = out at hstep h
    cases hstep with
    | found lookupKey id =>
      rw [setLink_hits, List.drop_left] at h
      cases h
      exact ⟨lookupKey,rfl⟩
    | stored lookupKey reason => simp [createPendingLink_hits] at h
    | storedTopology lookupKey reason => simp [createPendingLink_hits] at h
    | skipped => simp at h
    | conflict reason => simp [linkConflict] at h
    | raised exc => simp at h

/-- The request of a visited rule carries the state that the rule found. -/
theorem requestAt_payload {p : LinkFieldRule × LinkState} {req : PendingRequest}
    (h : core.requestAt db call p = some req) :
    req.payload = some (PendingCodec.serialize call.matched p.2.desired call.metadata) := by
  have hstep := core.resolveLink_step db call p.1 p.2
  unfold requestAt at h
  generalize core.resolveLink db call p.1 p.2 = out at hstep h
  cases hstep with
  | skipped => simp at h
  | found lookupKey id => simp at h
  | stored lookupKey reason =>
    rw [createPendingLink_requests, List.drop_left] at h
    cases h
    rfl
  | storedTopology lookupKey reason =>
    rw [createPendingLink_requests, List.drop_left] at h
    cases h
    rfl
  | conflict reason => simp [linkConflict] at h
  | raised exc => simp at h

variable (core db call)

/-- The desired state in which the links leave a row. -/
def desiredAfter : Fields :=
  match core.linkStart db call with
  | none => call.matched.desiredState
  | some (s,_) => (core.resolveLinkLoop db call core.linkRules s).2.desired

/-- The field of a link has the value, and no pending link is stored for it. -/
def LinkSurvives (rule : LinkFieldRule) (value : Value) : Prop :=
  Value.pyEq (Fields.read (core.desiredAfter db call) rule.field) value = true ∧
    ∀ req ∈ (core.resolve db call).requests, req.field ≠ rule.field

/-- The row comes to the rule, and the lookup answers an identifier of the value. -/
def AnswersWith (rule : LinkFieldRule) (value : Value) : Prop :=
  ∃ s, (rule,s) ∈ core.linkTrace db call ∧ isSkipped rule s.desired = false ∧
    ∃ id, core.linkVerdict db call rule s.desired = .answered id ∧ coerceResolved id rule = value

/-- Where the row comes to the rule, its field is skipped or the row is refused. -/
def LeftAlone (rule : LinkFieldRule) : Prop :=
  ∀ s, (rule,s) ∈ core.linkTrace db call → isSkipped rule s.desired = true ∨
    core.linkVerdict db call rule s.desired = .refused

variable {core db call}

/-- With a gateway, a row that does not come to its links asks for none. -/
theorem resolve_requests_of_none (hgateway : core.hasGateway = true)
    (h : core.linkStart db call = none) : (core.resolve db call).requests = [] := by
  unfold linkStart at h
  unfold resolve
  cases hstatus : resolveDecisionStatus call.matched with
  | ambiguous => rfl
  | conflictSource => rfl
  | matched =>
    rw [hstatus, hgateway] at h
    cases hm : core.applyMergePolicy call.matched with
    | ok merged => simp [hm] at h
    | error exc => simp [resolveAccepted, hm, refused]
  | notFound =>
    rw [hstatus, hgateway] at h
    cases hm : core.applyMergePolicy call.matched with
    | ok merged => simp [hm] at h
    | error exc => simp [resolveAccepted, hm, refused]

theorem linkStart_spec {s : LinkState} {mutated : List String}
    (h : core.linkStart db call = some (s,mutated)) : core.hasGateway = true ∧
      core.applyMergePolicy call.matched = .ok (s.desired,mutated) := by
  unfold linkStart at h
  split at h
  · rename_i hok
    split at h
    · rename_i hm
      cases h
      exact ⟨((Bool.and_eq_true ..).mp hok).2,hm⟩
    · cases h
  · cases h

theorem linkStart_of_mem {p : LinkFieldRule × LinkState} (h : p ∈ core.linkTrace db call) :
    ∃ s mutated, core.linkStart db call = some (s,mutated) ∧
      p ∈ core.visited db call core.linkRules s := by
  unfold linkTrace at h
  cases hstart : core.linkStart db call with
  | none =>
    rw [hstart] at h
    cases h
  | some start =>
    rw [hstart] at h
    exact ⟨start.1,start.2,rfl,h⟩

/-- What the step of a rule leaves in its field. -/
theorem resolveLink_survives_iff {rule : LinkFieldRule} {s : LinkState} (id : String)
    (hfree : ∀ req ∈ s.requests, req.field ≠ rule.field) :
    Value.pyEq (Fields.read (core.resolveLink db call rule s).2.desired rule.field)
          (coerceResolved id rule) = true ∧
        (∀ req ∈ (core.resolveLink db call rule s).2.requests, req.field ≠ rule.field) ↔
      (isSkipped rule s.desired = false ∧ ∃ other,
          core.linkVerdict db call rule s.desired = .answered other ∧
          coerceResolved other rule = coerceResolved id rule) ∨
        (isSkipped rule s.desired = true ∨ core.linkVerdict db call rule s.desired = .refused) ∧
          Value.pyEq (Fields.read s.desired rule.field) (coerceResolved id rule) = true := by
  by_cases hskip : isSkipped rule s.desired = true
  · have hstep : core.resolveLink db call rule s = (.next,s) := by
      rw [resolveLink, if_pos hskip]
    rw [hstep]
    simp only [hskip, Bool.true_eq_false, false_and, true_or, true_and, false_or]
    exact and_iff_left hfree
  · have hgo := Bool.eq_false_of_not_eq_true hskip
    have hstep := core.resolveLink_verdict db call hgo
    generalize core.resolveLink db call rule s = out at hstep
    cases hv : core.linkVerdict db call rule s.desired with
    | answered other =>
      rw [hv] at hstep
      cases hstep with
      | answered lookupKey =>
        rw [read_setLink_iff, setLink_requests]
        simp only [hgo, LinkVerdict.answered.injEq, reduceCtorEq, Bool.false_eq_true, or_self,
          false_and, or_false, true_and, exists_eq_left']
        exact and_iff_left hfree
    | waits =>
      rw [hv] at hstep
      cases hstep with
      | waits flow lookupKey reason =>
        have hmade : core.pendingRequest call rule lookupKey s.desired ∈
            (core.createPendingLink call rule lookupKey reason s).requests := by
          rw [createPendingLink_requests]
          exact List.mem_append_right _ (List.mem_singleton_self _)
        simp only [hgo, reduceCtorEq, false_and, exists_false, and_false, Bool.false_eq_true,
          or_self, iff_false]
        exact fun h => h.2 _ hmade rfl
    | refused =>
      rw [hv] at hstep
      have hsame : out.2.desired = s.desired ∧ out.2.requests = s.requests := by
        cases hstep <;> exact ⟨rfl,rfl⟩
      rw [hsame.1, hsame.2]
      simp only [hgo, reduceCtorEq, false_and, exists_false, and_false, Bool.false_eq_true,
        false_or, true_and]
      exact and_iff_left hfree

theorem not_pair_sublist {α : Type} {x y : α} {l₁ l₂ : List α} (hx : x ∉ l₁) (hy : y ∉ l₂) :
    ¬ [x,y].Sublist (l₁ ++ l₂) := by
  intro h
  obtain ⟨k₁,k₂,hk,h₁,h₂⟩ := List.sublist_append_iff.mp h
  cases k₁ with
  | nil =>
    rw [List.nil_append] at hk
    exact hy (h₂.subset (hk ▸ List.mem_cons_of_mem _ (List.mem_singleton_self y)))
  | cons a k₁ => exact hx ((List.cons.inj hk).1 ▸ h₁.subset List.mem_cons_self)

/-- A rule that was answered asked for nothing. -/
theorem requestAt_of_hitAt {p : LinkFieldRule × LinkState} {hit : LinkHit}
    (h : core.hitAt db call p = some hit) : core.requestAt db call p = none := by
  obtain ⟨_,lookupKey,hstep⟩ := resolveLink_of_hitAt h
  simp [requestAt, hstep]

/-- When a pending link is stored, the field of an answered rule holds its identifier if the
rule comes earlier, and else what the rule found in it. -/
theorem stored_field {A B : LinkFieldRule} {sA sB : LinkState} {hit : LinkHit}
    {req : PendingRequest} (hfields : (core.linkRules.map LinkFieldRule.field).Nodup)
    (hA : (A,sA) ∈ core.linkTrace db call) (hhit : core.hitAt db call (A,sA) = some hit)
    (hB : (B,sB) ∈ core.linkTrace db call) (hreq : core.requestAt db call (B,sB) = some req) :
    ([A,B].Sublist core.linkRules ∧
        Value.pyEq (Fields.read sB.desired A.field) (coerceResolved hit.resolvedId A) = true) ∨
      ¬ [A,B].Sublist core.linkRules ∧
        Fields.read sB.desired A.field = Fields.read sA.desired A.field := by
  obtain ⟨s,mutated,hstart,hA⟩ := linkStart_of_mem hA
  obtain ⟨_,_,hstart',hB⟩ := linkStart_of_mem hB
  rw [hstart] at hstart'
  cases hstart'
  obtain ⟨b₁,a₁,hlistA,hpassA⟩ := passes_of_mem_visited hA
  obtain ⟨b₂,a₂,hlistB,hpassB⟩ := passes_of_mem_visited hB
  obtain ⟨_,lookupKey,hset⟩ := resolveLink_of_hitAt hhit
  dsimp only at hlistA hlistB hpassA hpassB hset
  have hne : A ≠ B := by
    rintro rfl
    rcases resolveLinkLoop_at (mem_of_mem_visited hA) hfields s with ⟨hnot,_⟩ | ⟨s',hiff,_⟩
    · exact hnot sA hA
    · rw [(hiff sB).mp hB, ← (hiff sA).mp hA, requestAt_of_hitAt hhit] at hreq
      cases hreq
  rcases List.append_eq_append_iff.mp (hlistA.symm.trans hlistB) with
    ⟨m,hb,ha⟩ | ⟨m,hb,ha⟩
  · cases m with
    | nil => exact absurd (List.cons.inj ha).1 hne
    | cons r mid =>
      obtain ⟨rfl,ha⟩ := List.cons.inj ha
      rw [hb] at hpassB
      obtain ⟨s₁,hfirst,hrest⟩ := hpassB.split
      cases hfirst.unique hpassA
      cases hrest with
      | cons head tail =>
        rw [hset] at head
        cases head
        rw [hlistA, ha, List.map_append, List.nodup_append] at hfields
        have hmid : ∀ rule ∈ mid, A.field ≠ rule.field := fun rule hrule he =>
          (List.nodup_cons.mp hfields.2.1).1 (by
            rw [he]
            exact List.mem_map_of_mem (List.mem_append_left _ hrule))
        have horder : [A,B].Sublist core.linkRules := by
          rw [hlistA, ha]
          exact ((List.singleton_sublist.mpr (List.mem_append_right _ List.mem_cons_self)).cons_cons
            A).trans (List.sublist_append_right ..)
        rw [(tail.sameAt hmid).1, read_setLink_iff]
        exact .inl ⟨horder,rfl⟩
  · cases m with
    | nil => exact absurd (List.cons.inj ha).1.symm hne
    | cons r mid =>
      obtain ⟨rfl,ha⟩ := List.cons.inj ha
      rw [hb] at hpassA
      obtain ⟨s₁,hfirst,hrest⟩ := hpassA.split
      cases hfirst.unique hpassB
      rw [hlistA, List.map_append, List.nodup_append] at hfields
      have hbefore : ∀ rule ∈ b₁, A.field ≠ rule.field := fun rule hrule he =>
        hfields.2.2 _ (List.mem_map_of_mem hrule) _ (List.mem_map_of_mem List.mem_cons_self)
          he.symm
      have hframe := hrest.sameAt fun rule hrule => hbefore rule (by
        rw [hb]
        exact List.mem_append_right _ hrule)
      have horder : ¬ [A,B].Sublist core.linkRules := by
        have hA : A ∉ b₁ := fun hin => hbefore A hin rfl
        have hB : B ∉ A::a₁ := by
          intro hin
          have hin' : B ∈ b₁ := by
            rw [hb]
            exact List.mem_append_right _ List.mem_cons_self
          exact hfields.2.2 _ (List.mem_map_of_mem hin') _ (List.mem_map_of_mem hin) rfl
        rw [hlistA]
        exact not_pair_sublist hA hB
      exact .inr ⟨horder,hframe.1.symm⟩

/-- A resolved link survives the replay of its row exactly when the lookup for the stored row
answers the same value, or when the stored field has the value already, since the rule comes
before the waiting one or the source value was the identifier, and the rule is left alone. -/
theorem resolved_link_survives_iff {A B : LinkFieldRule} {sA sB : LinkState} {hit : LinkHit}
    {req : PendingRequest} {item : TransformResult MatchedRow} {row : MatchedRow}
    (table : PendingTable) (later : Clock)
    (hfields : (core.linkRules.map LinkFieldRule.field).Nodup)
    (hA : (A,sA) ∈ core.linkTrace db call) (hhit : core.hitAt db call (A,sA) = some hit)
    (hB : (B,sB) ∈ core.linkTrace db call) (hreq : core.requestAt db call (B,sB) = some req)
    (hload : req.payload.map PendingCodec.loadPayload = some (.ok (some item)))
    (hrow : item.row = some row) (hkeys : (Dict.keys row.desiredState).Nodup) :
    core.LinkSurvives ⟨db.index,table⟩ (call.replay item row later) A
        (coerceResolved hit.resolvedId A) ↔
      core.AnswersWith ⟨db.index,table⟩ (call.replay item row later) A
          (coerceResolved hit.resolvedId A) ∨
        ([A,B].Sublist core.linkRules ∨
            Value.pyEq (Fields.read sA.desired A.field) (coerceResolved hit.resolvedId A) = true) ∧
          core.LeftAlone ⟨db.index,table⟩ (call.replay item row later) A := by
  have hpayload := requestAt_payload hreq
  rw [hpayload, Option.map_some, Option.some.injEq] at hload
  have hdesired : row.desiredState = sB.desired := PendingCodec.loadPayload_desired hload hrow
  obtain ⟨hgo,_⟩ := resolveLink_of_hitAt hhit
  have hfound : (Fields.read sA.desired A.field).isNull = false := by
    unfold isSkipped at hgo
    exact ((Bool.or_eq_false_iff ..).mp hgo).1
  -- the stored field, and that it is there
  obtain ⟨hstored,hnull⟩ : (Value.pyEq (Fields.read sB.desired A.field)
        (coerceResolved hit.resolvedId A) = true ↔ [A,B].Sublist core.linkRules ∨
        Value.pyEq (Fields.read sA.desired A.field) (coerceResolved hit.resolvedId A) = true) ∧
      (Fields.read sB.desired A.field).isNull = false := by
    rcases stored_field hfields hA hhit hB hreq with ⟨horder,hvalue⟩ | ⟨horder,hsame⟩
    · exact ⟨⟨fun _ => .inl horder,fun _ => hvalue⟩,not_null_of_pyEq hvalue⟩
    · rw [hsame]
      exact ⟨⟨.inr,fun h => h.resolve_left horder⟩,hfound⟩
  rw [← hstored]
  obtain ⟨s₀,_,hstart₀,hvisited⟩ := linkStart_of_mem hA
  have hgateway := (linkStart_spec hstart₀).1
  have hmem : A ∈ core.linkRules := mem_of_mem_visited hvisited
  generalize hdb : (⟨db.index,table⟩ : IdentityDb) = db'
  generalize hcall : call.replay item row later = call'
  have hmatched : call'.matched = row := by
    rw [← hcall]
    rfl
  cases hstart : core.linkStart db' call' with
  | none =>
    have htrace : core.linkTrace db' call' = [] := by rw [linkTrace, hstart]
    simp only [LinkSurvives, desiredAfter, AnswersWith, LeftAlone, hstart, htrace,
      resolve_requests_of_none hgateway hstart, hmatched, hdesired]
    simp
  | some start =>
    obtain ⟨s,mutated⟩ := start
    have htrace : core.linkTrace db' call' = core.visited db' call' core.linkRules s := by
      rw [linkTrace, hstart]
    have hread : Value.pyEq (Fields.read s.desired A.field) (coerceResolved hit.resolvedId A) =
        Value.pyEq (Fields.read sB.desired A.field) (coerceResolved hit.resolvedId A) := by
      have hmerge := (linkStart_spec hstart).2
      rw [hmatched] at hmerge
      rw [core.applyMergePolicy_keeps hmerge hkeys (by rw [hdesired]; exact hnull), hdesired]
    have hnone : ∀ req ∈ s.requests, req.field ≠ A.field := by
      rw [linkStart_requests hstart]
      exact fun _ h => absurd h List.not_mem_nil
    simp only [LinkSurvives, desiredAfter, AnswersWith, LeftAlone, hstart, htrace,
      resolve_requests_of_linkStart hstart, ← hread]
    rcases resolveLinkLoop_at hmem hfields s with ⟨hnot,hsame⟩ | ⟨s',hiff,hbefore,hafter⟩
    · have hreqs : ∀ req ∈ (core.resolveLinkLoop db' call' core.linkRules s).2.requests,
          req.field ≠ A.field := fun req h he => hnone req ((hsame.2 req he).mp h) he
      rw [hsame.1]
      simp only [hnot, false_and, exists_false, false_or, false_imp_iff, implies_true, and_true]
      exact and_iff_left hreqs
    · have hfree : ∀ req ∈ s'.requests, req.field ≠ A.field := fun req h he =>
        hnone req ((hbefore.2 req he).mp h) he
      have hreqs : (∀ req ∈ (core.resolveLinkLoop db' call' core.linkRules s).2.requests,
          req.field ≠ A.field) ↔ ∀ req ∈ (core.resolveLink db' call' A s').2.requests,
            req.field ≠ A.field := by
        constructor
        · exact fun h req hin he => h req ((hafter.2 req he).mpr hin) he
        · exact fun h req hin he => h req ((hafter.2 req he).mp hin) he
      rw [hafter.1, hreqs, resolveLink_survives_iff hit.resolvedId hfree, hbefore.1]
      simp only [hiff, exists_eq_left, forall_eq]
      rw [and_comm (a := _ ∨ _)]

section Samples

/-- An employee names its manager and its unit by their codes. -/
def employeeLinks : ResolveCore :=
  plainCore [codeLink "manager" "employees", codeLink "unit" "organizations"]

/-- The manager M1 is known. -/
def managerKnown : IdentityDb := ⟨[⟨"employees","code:M1","emp-7"⟩],.empty⟩

def joiner : MatchedRow :=
  newRow 2 "line:2" "E1" (.str "emp-1") [("manager",.str "M1"),("unit",.str "U1")]

/-- The states in which the joiner comes to its manager and to its unit. -/
def atManager : LinkState := .start .empty joiner.desiredState

def atUnit : LinkState := setLink (codeLink "manager" "employees") (some "code:M1") "emp-7" atManager

def joinerAgain : MatchedRow := PendingCodec.replayedRow joiner atUnit.desired

/-- The manager is found as emp-7, which is looked up as a code by the replay and not found. -/
theorem manager_pending_again :
    employeeLinks.hitAt managerKnown (callOn joiner) (codeLink "manager" "employees",atManager) =
      some ⟨codeLink "manager" "employees","code:M1","emp-7"⟩ ∧
    (employeeLinks.resolve managerKnown (callOn joiner)).requests.map PendingRequest.field =
      ["unit"] ∧
    (employeeLinks.resolve managerKnown (callOn joiner)).requests.map PendingRequest.payload =
      [some (PendingCodec.serialize joiner joinerAgain.desiredState [])] ∧
    PendingCodec.loadPayload (PendingCodec.serialize joiner joinerAgain.desiredState []) =
      .ok (some (PendingCodec.replayedResult joinerAgain [])) ∧
    ¬ employeeLinks.LinkSurvives managerKnown
      ((callOn joiner).replay (PendingCodec.replayedResult joinerAgain []) joinerAgain noon)
      (codeLink "manager" "employees") (.str "emp-7") := by
  refine ⟨by decide,by decide,by decide,by decide,fun h => ?_⟩
  have hasked : (employeeLinks.resolve managerKnown ((callOn joiner).replay
      (PendingCodec.replayedResult joinerAgain []) joinerAgain noon)).requests.map
        PendingRequest.field = ["manager", "unit"] := by decide
  have hmem : "manager" ∈ (employeeLinks.resolve managerKnown ((callOn joiner).replay
      (PendingCodec.replayedResult joinerAgain []) joinerAgain noon)).requests.map
        PendingRequest.field := hasked ▸ List.mem_cons_self
  obtain ⟨req,hreq,hfield⟩ := List.mem_map.mp hmem
  exact h.2 req hreq hfield

theorem resolved_link_survives_iff_joiner :
    employeeLinks.LinkSurvives managerKnown
        ((callOn joiner).replay (PendingCodec.replayedResult joinerAgain []) joinerAgain noon)
        (codeLink "manager" "employees") (.str "emp-7") ↔
      employeeLinks.AnswersWith managerKnown
          ((callOn joiner).replay (PendingCodec.replayedResult joinerAgain []) joinerAgain noon)
          (codeLink "manager" "employees") (.str "emp-7") ∨
        ([codeLink "manager" "employees", codeLink "unit" "organizations"].Sublist
            employeeLinks.linkRules ∨
          Value.pyEq (Fields.read atManager.desired "manager") (.str "emp-7") = true) ∧
          employeeLinks.LeftAlone managerKnown
            ((callOn joiner).replay (PendingCodec.replayedResult joinerAgain []) joinerAgain noon)
            (codeLink "manager" "employees") :=
  have hmanager : (codeLink "manager" "employees",atManager) ∈
      employeeLinks.linkTrace managerKnown (callOn joiner) := List.mem_cons_self
  have hunit : (codeLink "unit" "organizations",atUnit) ∈
      employeeLinks.linkTrace managerKnown (callOn joiner) :=
    List.mem_cons_of_mem _ List.mem_cons_self
  have hhit : employeeLinks.hitAt managerKnown (callOn joiner)
      (codeLink "manager" "employees",atManager) =
        some ⟨codeLink "manager" "employees","code:M1","emp-7"⟩ := by decide
  resolved_link_survives_iff .empty noon (by decide) hmanager hhit hunit rfl
    (by decide) rfl (by decide)

end Samples

end ResolveCore
end NexusEtl
