import NexusEtl.FuzzyDecision
import NexusEtl.TopologyLadder

/-!
# The record of a match

A matched row names the record that the deciding step supports: an identity rule
that found one record, the fuzzy decision, or the comparison with the target's
tree. The comparison knows candidates by the id of their tree node, so it cannot
tell two records of one node apart, and takes the first of them.
-/

set_option autoImplicit false

namespace NexusEtl
open NexusEtl.Library
open TopologyComparison

/-- The match-side topology services: the locator builder, the target's tree, the ladder. -/
structure TopologyMatchRuntime where
  targetNodeIdField : String
  build : SourceRecord → Except PyException (Option (List String))
  builder : TargetHierarchyTopologyBuilder
  rows : List TargetHierarchyRow
  ladder : List TopologyMatchMode

def textsValue (texts : List String) : Value := .list (texts.map .str)

/-- The evidence as the mapping that the result carries. -/
def TopologyComparison.Evidence.fields (evidence : Evidence) : Fields :=
  [("source_segments",textsValue evidence.sourceSegments),
    ("candidate_ids",textsValue evidence.candidateIds),
    ("rungs",.list (evidence.rungs.map fun rung =>
      .dict [("mode",.str rung.mode),
        ("matched_candidate_ids",textsValue rung.matchedCandidateIds),
        ("matched_count",.int rung.matchedCount)]))]

namespace TopologyMatchRuntime

def tree (runtime : TopologyMatchRuntime) : TopologySnapshot :=
  (runtime.builder.build runtime.rows).1

def matchResult (result : ExplainedResult) : TopologyMatchResult :=
  { matchedTargetId := result.matchedCandidateId
    isAmbiguous := result.mode == .ambiguous
    mode := result.mode
    reason := some result.reason
    evidence := result.evidence.fields }

/-- `TopologyMatchService` over a snapshot and a policy. -/
def services (runtime : TopologyMatchRuntime) : TopologyMatchServices :=
  { targetNodeIdField := runtime.targetNodeIdField
    build := runtime.build
    compare := fun source ids =>
      (compareTopologyCandidates runtime.tree.pathOf source ids runtime.ladder).map matchResult }

end TopologyMatchRuntime

/-- The id of the tree node that a record carries. -/
def nodeOf (field : String) (record : Fields) : Option String :=
  if (Fields.read record field).isBlank then none else some (Fields.read record field).pyStr

namespace MatchCore

section Identity

variable (core : MatchCore) (row : Fields) (ctx : MatchContext)

/-- The first identity rule that finds a record: its identity, and all that it finds. -/
inductive FirstHit : List IdentityRule → Identity → List Fields → Prop
  | hit {rule : IdentityRule} {rules : List IdentityRule} {identity : Identity}
      {records : List Fields} (hbuild : rule.buildIdentity row ctx = .ok identity)
      (hvalue : identity.primaryValue ≠ "")
      (hfind : core.find core.dataset [(identity.primary,.str identity.primaryValue)]
        core.includeDeleted = .ok records) (hne : records ≠ []) :
      FirstHit (rule::rules) identity records
  | empty {rule : IdentityRule} {rules : List IdentityRule} {skipped identity : Identity}
      {records : List Fields} (hbuild : rule.buildIdentity row ctx = .ok skipped)
      (hvalue : skipped.primaryValue = "") (h : FirstHit rules identity records) :
      FirstHit (rule::rules) identity records
  | miss {rule : IdentityRule} {rules : List IdentityRule} {skipped identity : Identity}
      {records : List Fields} (hbuild : rule.buildIdentity row ctx = .ok skipped)
      (hvalue : skipped.primaryValue ≠ "")
      (hfind : core.find core.dataset [(skipped.primary,.str skipped.primaryValue)]
        core.includeDeleted = .ok []) (h : FirstHit rules identity records) :
      FirstHit (rule::rules) identity records

variable {core row ctx}

theorem matchIdentity_single {rules : List IdentityRule} {identity : Identity} {record : Fields}
    (h : core.FirstHit row ctx rules identity [record]) (first : Option Identity) :
    core.matchIdentity row ctx rules first = .ok (.ok (identity,some record)) := by
  generalize hrecords : [record] = records at h
  induction h generalizing first with
  | hit hbuild hvalue hfind hne =>
    subst hrecords
    simp [matchIdentity, hbuild, hvalue, hfind, bind, Except.bind, pure, Except.pure]
  | empty hbuild hvalue h ih =>
    simp [matchIdentity, hbuild, hvalue, bind, Except.bind, ih _ hrecords]
  | miss hbuild hvalue hfind h ih =>
    simp [matchIdentity, hbuild, hvalue, hfind, bind, Except.bind, ih _ hrecords]

theorem matchIdentity_several {rules : List IdentityRule} {identity : Identity}
    {records : List Fields} (h : core.FirstHit row ctx rules identity records)
    (hmany : 2 ≤ records.length) (first : Option Identity) :
    ∃ item, item.code = "MATCH_CONFLICT_TARGET" ∧
      core.matchIdentity row ctx rules first = .ok (.error item) := by
  induction h generalizing first with
  | @hit rule rules identity records hbuild hvalue hfind hne =>
    match records with
    | [] => simp at hmany
    | [_] => simp at hmany
    | _::_::_ =>
      simp only [matchIdentity, hbuild, hvalue, hfind, bind, Except.bind, pure, Except.pure,
        if_false]
      exact ⟨_,rfl,rfl⟩
  | empty hbuild hvalue h ih =>
    obtain ⟨item,hcode,hrun⟩ := ih hmany first
    exact ⟨item,hcode,by simp [matchIdentity, hbuild, hvalue, bind, Except.bind, hrun]⟩
  | @miss rule rules skipped identity records hbuild hvalue hfind h ih =>
    obtain ⟨item,hcode,hrun⟩ := ih hmany (some (first.getD skipped))
    exact ⟨item,hcode,by simp [matchIdentity, hbuild, hvalue, hfind, bind, Except.bind, hrun]⟩

theorem firstHit_of_matchIdentity {rules : List IdentityRule} {identity : Identity}
    {record : Fields} {first : Option Identity}
    (h : core.matchIdentity row ctx rules first = .ok (.ok (identity,some record))) :
    core.FirstHit row ctx rules identity [record] := by
  induction rules generalizing first with
  | nil => cases first <;> cases h
  | cons rule rules ih =>
    simp only [matchIdentity, bind, Except.bind, pure, Except.pure] at h
    split at h
    · cases h
    · rename_i candidate hbuild
      split at h
      · rename_i hvalue
        exact .empty hbuild hvalue (ih h)
      · rename_i hvalue
        split at h
        · cases h
        · rename_i records hfind
          split at h
          · exact .miss hbuild hvalue hfind (ih h)
          · cases h
            exact .hit hbuild hvalue hfind (by simp)
          · cases h

/-- The record of a first hit was found with an identity of the row. -/
theorem FirstHit.found {rules : List IdentityRule} {identity : Identity} {records : List Fields}
    (h : core.FirstHit row ctx rules identity records) :
    (∃ rule ∈ rules, rule.buildIdentity row ctx = .ok identity) ∧
      core.find core.dataset [(identity.primary,.str identity.primaryValue)]
        core.includeDeleted = .ok records := by
  induction h with
  | hit hbuild hvalue hfind hne => exact ⟨⟨_,List.mem_cons_self,hbuild⟩,hfind⟩
  | empty hbuild hvalue h ih =>
    obtain ⟨⟨rule,hrule,hrest⟩,hfind⟩ := ih
    exact ⟨⟨rule,List.mem_cons_of_mem _ hrule,hrest⟩,hfind⟩
  | miss hbuild hvalue hmiss h ih =>
    obtain ⟨⟨rule,hrule,hrest⟩,hfind⟩ := ih
    exact ⟨⟨rule,List.mem_cons_of_mem _ hrule,hrest⟩,hfind⟩

end Identity

section Blocking

variable {core : MatchCore} {row desired : Fields} {identity : Identity}

theorem mem_takeCandidates {limit : Nat} {found items : List Fields} {record : Fields}
    (h : record ∈ takeCandidates limit found items) : record ∈ found ∨ record ∈ items := by
  induction items generalizing found with
  | nil => exact .inl h
  | cons item items ih =>
    unfold takeCandidates at h
    split at h
    · exact .inl h
    · split at h
      · exact (ih h).imp_right (List.mem_cons_of_mem _)
      · rcases ih h with h | h
        · rcases List.mem_append.mp h with h | h
          · exact .inl h
          · exact .inr (List.mem_singleton.mp h ▸ List.mem_cons_self)
        · exact .inr (List.mem_cons_of_mem _ h)

/-- A candidate was found under one of the blocking keys. -/
theorem mem_collectBlockingCandidates {limit : Nat} {keys : List String}
    {found candidates : List Fields} {record : Fields}
    (h : core.collectBlockingCandidates row desired identity limit keys found = .ok candidates)
    (hrecord : record ∈ candidates) : record ∈ found ∨ ∃ key ∈ keys, ∃ records,
      core.find core.dataset [(key,readMatchValue key row desired identity)]
        core.includeDeleted = .ok records ∧ record ∈ records := by
  induction keys generalizing found with
  | nil =>
    cases h
    exact .inl hrecord
  | cons key keys ih =>
    have hlater : ∀ found', core.collectBlockingCandidates row desired identity limit keys found' =
        .ok candidates → record ∈ found' ∨ ∃ key' ∈ key::keys, ∃ records,
          core.find core.dataset [(key',readMatchValue key' row desired identity)]
            core.includeDeleted = .ok records ∧ record ∈ records := by
      intro found' h'
      rcases ih h' with hfound | ⟨key',hkey,hrest⟩
      · exact .inl hfound
      · exact .inr ⟨key',List.mem_cons_of_mem _ hkey,hrest⟩
    unfold collectBlockingCandidates at h
    dsimp only at h
    split at h
    · cases h
      exact .inl hrecord
    · split at h
      · exact hlater found h
      · split at h
        · split at h
          · exact hlater found h
          · cases h
        · rename_i records hfind
          rcases hlater _ h with htaken | hrest
          · rcases mem_takeCandidates htaken with hfound | hfound
            · exact .inl hfound
            · exact .inr ⟨key,List.mem_cons_self,records,hfind,hfound⟩
          · exact .inr hrest

end Blocking
section Nodes

/-- A dictionary of the records by node id holds the first record of each node. -/
theorem get?_candidateRows (field : String) (records : List Fields) (id : String) :
    Dict.get? (candidateRowsByTopologyId field records) id =
      records.find? fun record => decide (nodeOf field record = some id) := by
  have hfold : ∀ (records : List Fields) (d : Dict String Fields),
      Dict.get? (records.foldl (fun d c =>
        let id := Fields.read c field
        if id.isBlank || Dict.contains d id.pyStr then d else Dict.set d id.pyStr c) d) id =
      (Dict.get? d id).or
        (records.find? fun record => decide (nodeOf field record = some id)) := by
    intro records
    induction records with
    | nil => intro d; simp
    | cons record records ih =>
      intro d
      rw [List.foldl_cons, ih]
      dsimp only
      by_cases hblank : (Fields.read record field).isBlank = true
      · simp [nodeOf, hblank]
      · by_cases heq : (Fields.read record field).pyStr = id
        · cases hget : Dict.get? d id with
          | none => simp [nodeOf, hblank, heq, Dict.contains, hget]
          | some known => simp [Dict.contains, heq, hget]
        · have hset : Dict.get? (if (Fields.read record field).isBlank ||
              Dict.contains d (Fields.read record field).pyStr then d
              else Dict.set d (Fields.read record field).pyStr record) id = Dict.get? d id := by
            split
            · rfl
            · exact Dict.get?_set_ne d record heq
          rw [hset]
          simp [nodeOf, hblank, heq]
  unfold candidateRowsByTopologyId
  rw [hfold records []]
  simp

/-- The tree nodes that the records carry. -/
def nodeIds (field : String) (records : List Fields) : List String :=
  records.filterMap (nodeOf field)

theorem mem_nodeIds {field id : String} {records : List Fields} {record : Fields}
    (hrecord : record ∈ records) (hnode : nodeOf field record = some id) :
    id ∈ nodeIds field records := List.mem_filterMap.mpr ⟨record,hrecord,hnode⟩

theorem mem_keys_candidateRows {field : String} {records : List Fields} {id : String} :
    id ∈ Dict.keys (candidateRowsByTopologyId field records) ↔ id ∈ nodeIds field records := by
  rw [Dict.mem_keys_iff, get?_candidateRows, List.find?_isSome]
  simp [nodeIds]

theorem candidateRows_eq_nil_iff {field : String} {records : List Fields} :
    candidateRowsByTopologyId field records = [] ↔
      ∀ record ∈ records, nodeOf field record = none := by
  constructor
  · intro h record hrecord
    by_contra hsome
    obtain ⟨id,hid⟩ := Option.ne_none_iff_exists'.mp hsome
    have hmem : id ∈ nodeIds field records := List.mem_filterMap.mpr ⟨record,hrecord,hid⟩
    have hkeys := mem_keys_candidateRows.mpr hmem
    rw [h] at hkeys
    cases hkeys
  · intro h
    by_contra hne
    obtain ⟨entry,hentry⟩ := List.exists_mem_of_ne_nil _ hne
    have hmem : entry.1 ∈ nodeIds field records :=
      mem_keys_candidateRows.mp (List.mem_map_of_mem hentry)
    obtain ⟨record,hrecord,hid⟩ := List.mem_filterMap.mp hmem
    rw [h record hrecord] at hid
    cases hid

end Nodes

section Refinement

/-- The matcher with the services of a runtime, when it has one. -/
def withTopology (core : MatchCore) (runtime : Option TopologyMatchRuntime) : MatchCore :=
  { core with topologyServices := runtime.map TopologyMatchRuntime.services }

variable (core : MatchCore) (enriched : TransformResult Fields)

/-- The row as it comes to the refinement. -/
structure Reaches (row : Fields) (identity : Identity) (existing : Option Fields)
    (desired : Fields) (state : MatchState) : Prop where
  read : enriched.row = some row
  identified : core.matchIdentity row (buildMatchContext enriched)
    core.matchingRules.identityRules none = .ok (.ok (identity,existing))
  desires : core.buildDesiredState row (buildMatchContext enriched) = .ok desired
  decided : core.matchState row desired identity existing = .ok state

/-- The policy asks for the tree. -/
def Applies (policy : TopologyMatchPolicy) (state : MatchState) : Prop :=
  policy.enabled = true ∧ state.records ≠ [] ∧ shouldApplyTopology policy state = true

/-- Nothing is compared: no policy that applies, no path, or no record with a node. -/
def Untouched (state : MatchState) : Prop :=
  ∀ policy services, core.matchingRules.topology = some policy →
    core.topologyServices = some services → Applies policy state →
      (services.build enriched.record = .ok none ∧ policy.onMissingTopology = .skip) ∨
        ∃ locator, services.build enriched.record = .ok (some locator) ∧
          ∀ record ∈ state.records, nodeOf services.targetNodeIdField record = none

/-- The nodes of the records are compared with the path of the row. -/
structure Consulted (runtime : TopologyMatchRuntime) (state : MatchState)
    (locator : List String) : Prop where
  services : core.topologyServices = some runtime.services
  policy : ∃ policy, core.matchingRules.topology = some policy ∧ Applies policy state
  located : runtime.build enriched.record = .ok (some locator)
  nodes : ∃ record ∈ state.records, nodeOf runtime.targetNodeIdField record ≠ none

variable {core enriched}

theorem refine_untouched {state : MatchState} (h : core.Untouched enriched state) :
    core.refineWithTopology enriched state = .ok (.ok (state,none)) := by
  unfold refineWithTopology
  cases hpolicy : core.matchingRules.topology with
  | none => rfl
  | some policy =>
    cases hservices : core.topologyServices with
    | none => rfl
    | some services =>
      dsimp only
      by_cases happlies : Applies policy state
      · obtain ⟨henabled,hne,happly⟩ := happlies
        rw [if_neg (by simp [henabled, hne, happly])]
        rcases h policy services hpolicy hservices ⟨henabled,hne,happly⟩ with
          ⟨hbuild,hskip⟩ | ⟨locator,hbuild,hnodes⟩
        · simp [hbuild, hskip, bind, Except.bind, pure, Except.pure]
        · simp [hbuild, candidateRows_eq_nil_iff.mpr hnodes, bind, Except.bind, pure, Except.pure]
      · rw [if_pos]
        by_contra hnot
        apply happlies
        simpa [Applies, and_assoc] using hnot

theorem refine_consulted {runtime : TopologyMatchRuntime} {state : MatchState}
    {locator : List String} (h : core.Consulted enriched runtime state locator) :
    core.refineWithTopology enriched state =
      (compareTopologyCandidates runtime.tree.pathOf locator
        (Dict.keys (candidateRowsByTopologyId runtime.targetNodeIdField state.records))
          runtime.ladder).map fun result => .ok
            (refineWith state (candidateRowsByTopologyId runtime.targetNodeIdField state.records)
              (TopologyMatchRuntime.matchResult result),
                some (TopologyMatchRuntime.matchResult result)) := by
  obtain ⟨policy,hpolicy,henabled,hne,happly⟩ := h.policy
  obtain ⟨record,hrecord,hnode⟩ := h.nodes
  have hdict : candidateRowsByTopologyId runtime.services.targetNodeIdField state.records ≠ [] := by
    intro hnil
    exact hnode (candidateRows_eq_nil_iff.mp hnil record hrecord)
  have hlocated : runtime.services.build enriched.record = .ok (some locator) := h.located
  have hcompare : ∀ ids, runtime.services.compare locator ids =
      (compareTopologyCandidates runtime.tree.pathOf locator ids runtime.ladder).map
        TopologyMatchRuntime.matchResult := fun ids => rfl
  have hfield : runtime.targetNodeIdField = runtime.services.targetNodeIdField := rfl
  unfold refineWithTopology
  rw [hpolicy, h.services, hfield]
  dsimp only
  rw [if_neg (by simp [henabled, hne, happly])]
  simp only [hlocated, hcompare, if_neg hdict, bind, Except.bind, pure, Except.pure]
  cases compareTopologyCandidates runtime.tree.pathOf locator
    (Dict.keys (candidateRowsByTopologyId runtime.services.targetNodeIdField state.records))
      runtime.ladder <;> rfl

/-- A consultation that completes has compared the nodes. -/
theorem compared_of_refine {runtime : TopologyMatchRuntime} {state : MatchState}
    {locator : List String} (h : core.Consulted enriched runtime state locator)
    {refined : Except DiagnosticItem (MatchState × Option TopologyMatchResult)}
    (hrefine : core.refineWithTopology enriched state = .ok refined) :
    ∃ compared, compareTopologyCandidates runtime.tree.pathOf locator
        (Dict.keys (candidateRowsByTopologyId runtime.targetNodeIdField state.records))
          runtime.ladder = .ok compared ∧
      refined = .ok
        (refineWith state (candidateRowsByTopologyId runtime.targetNodeIdField state.records)
          (TopologyMatchRuntime.matchResult compared),
            some (TopologyMatchRuntime.matchResult compared)) := by
  rw [refine_consulted h] at hrefine
  cases hrun : compareTopologyCandidates runtime.tree.pathOf locator
    (Dict.keys (candidateRowsByTopologyId runtime.targetNodeIdField state.records))
      runtime.ladder with
  | error exc =>
    rw [hrun] at hrefine
    cases hrefine
  | ok compared =>
    rw [hrun] at hrefine
    exact ⟨compared,rfl,(Except.ok.inj hrefine).symm⟩

/-- The refinement of a row that goes on: it leaves the state, or consults the tree. -/
theorem refine_cases {runtime : Option TopologyMatchRuntime}
    (hservices : core.topologyServices = runtime.map TopologyMatchRuntime.services)
    {state final : MatchState} {topology : Option TopologyMatchResult}
    (h : core.refineWithTopology enriched state = .ok (.ok (final,topology))) :
    (core.Untouched enriched state ∧ final = state ∧ topology = none) ∨
      ∃ rt locator, runtime = some rt ∧ core.Consulted enriched rt state locator := by
  by_cases huntouched : core.Untouched enriched state
  · rw [refine_untouched huntouched] at h
    cases h
    exact .inl ⟨huntouched,rfl,rfl⟩
  · apply Or.inr
    unfold Untouched at huntouched
    simp only [not_forall, not_or] at huntouched
    obtain ⟨policy,services,hpolicy,hsome,happlies,hmissing,hnodes⟩ := huntouched
    obtain ⟨henabled,hne,happly⟩ := happlies
    rw [hservices] at hsome
    obtain ⟨rt,rfl,rfl⟩ := Option.map_eq_some_iff.mp hsome
    unfold refineWithTopology at h
    rw [hpolicy, hservices, Option.map_some] at h
    dsimp only at h
    rw [if_neg (by simp [henabled, hne, happly])] at h
    cases hbuild : rt.build enriched.record with
    | error exc => simp [TopologyMatchRuntime.services, hbuild, bind, Except.bind] at h
    | ok located =>
      cases located with
      | none =>
        cases hskip : policy.onMissingTopology with
        | skip => exact absurd ⟨hbuild,hskip⟩ hmissing
        | hardError =>
          simp [TopologyMatchRuntime.services, hbuild, hskip, bind, Except.bind, pure,
            Except.pure] at h
      | some locator =>
        refine ⟨rt,locator,rfl,hservices,⟨policy,hpolicy,henabled,hne,happly⟩,hbuild,?_⟩
        by_contra hnone
        apply hnodes
        refine ⟨locator,hbuild,fun record hrecord => ?_⟩
        by_contra hnode
        exact hnone ⟨record,hrecord,hnode⟩

/-- From the refinement on, the row is given up, or emitted with the refined state. -/
theorem matchRow_of_reaches {row : Fields} {identity : Identity} {existing : Option Fields}
    {desired : Fields} {state : MatchState}
    (h : core.Reaches enriched row identity existing desired state) :
    core.matchRow enriched = (core.refineWithTopology enriched state).bind fun refined =>
      match refined with
      | .error item => .ok (failed enriched (buildMatchContext enriched) [item])
      | .ok (final,topology) =>
        (core.buildLinks row (buildMatchContext enriched)).map fun links =>
          let matched := core.matchedRow row desired (buildMatchContext enriched) identity final
            topology links
          { enriched with row := some matched, rowRef := some matched.rowRef } := by
  unfold matchRow
  rw [h.read]
  simp only [h.identified, h.desires, h.decided, bind, Except.bind, pure, Except.pure]
  cases core.refineWithTopology enriched state with
  | error exc => rfl
  | ok refined =>
    cases refined with
    | error item => rfl
    | ok refined =>
      cases core.buildLinks row (buildMatchContext enriched) <;> rfl

end Refinement
section Steps

variable (core : MatchCore) (enriched : TransformResult Fields)

/-- The record's node agrees with the path of the row. -/
def NodeAgrees (runtime : TopologyMatchRuntime) (locator : List String)
    (mode : TopologyMatchMode) (record : Fields) : Prop :=
  ∃ id, nodeOf runtime.targetNodeIdField record = some id ∧ runtime.tree.Agrees locator mode id

/-- The rung that decides between the nodes of the records. -/
def TreeDecides (runtime : TopologyMatchRuntime) (locator : List String) (records : List Fields)
    (mode : TopologyMatchMode) : Prop :=
  DecidesAt runtime.tree locator (nodeIds runtime.targetNodeIdField records) runtime.ladder mode

/-- A lookup of this row found the record: one of an identity rule, or of a blocking key. -/
def FoundFor (row : Fields) (matched : MatchedRow) (record : Fields) : Prop :=
  ∃ filter records, core.find core.dataset filter core.includeDeleted = .ok records ∧
    record ∈ records ∧
    ((∃ rule ∈ core.matchingRules.identityRules, ∃ identity,
        rule.buildIdentity row (buildMatchContext enriched) = .ok identity ∧
          filter = [(identity.primary,.str identity.primaryValue)]) ∨
      ∃ key ∈ core.matchingRules.fuzzy.blockingKeys,
        filter = [(key,readMatchValue key row matched.desiredState matched.identity)])

/-- The first identity rule that found any found this record alone. -/
def ByIdentity (row : Fields) (matched : MatchedRow) (record : Fields) : Prop :=
  core.FirstHit row (buildMatchContext enriched) core.matchingRules.identityRules
    matched.identity [record]

/-- No identity rule found any; the record is the clear best of the fuzzy candidates. -/
def ByFuzzy (row : Fields) (matched : MatchedRow) (record : Fields) : Prop :=
  (∀ identity records, ¬core.FirstHit row (buildMatchContext enriched)
    core.matchingRules.identityRules identity records) ∧
  ∃ candidates, core.blockingCandidates row matched.desiredState matched.identity =
      .ok candidates ∧
    core.matchingRules.fuzzy.Accepts
      (fun f => readMatchValue f row matched.desiredState matched.identity) candidates record

/-- The record is the only candidate whose node agrees at the rung that decides. -/
def ByTopology (runtime : Option TopologyMatchRuntime) (row : Fields) (matched : MatchedRow)
    (record : Fields) : Prop :=
  ∃ existing state rt locator mode others,
    core.Reaches enriched row matched.identity existing matched.desiredState state ∧
      runtime = some rt ∧ core.Consulted enriched rt state locator ∧
      TreeDecides rt locator state.records mode ∧
      state.records.Perm (record::others) ∧ NodeAgrees rt locator mode record ∧
      ∀ other ∈ others, ¬NodeAgrees rt locator mode other

/-- What a match should mean: a record that was found for this row, named by the decision, and
the only one that the deciding step supports. -/
structure SoundMatch (runtime : Option TopologyMatchRuntime) (matched : MatchedRow)
    (row record : Fields) : Prop where
  source : enriched.row = some row
  existing : matched.existing = some record
  found : core.FoundFor enriched row matched record
  selected : ∃ selected, matched.matchDecision.selected = some selected ∧
    selected.targetId = idText (candidateId record)
  stage : matched.matchDecision.topologyMatchMode = none →
    core.ByIdentity enriched row matched record ∨ core.ByFuzzy enriched row matched record
  topology : matched.matchDecision.topologyMatchMode ≠ none →
    core.ByTopology enriched runtime row matched record

/-- Two of the records carry the node. -/
def SharesNode (field : String) (records : List Fields) (id : String) : Prop :=
  ∃ a b rest, records.Perm (a::b::rest) ∧ nodeOf field a = some id ∧ nodeOf field b = some id

/-- Where the tree is not consulted, no two candidates share an acceptable top without a band;
where it is, the only node that agrees is carried by one record. -/
structure ClearCandidates (runtime : Option TopologyMatchRuntime) : Prop where
  fuzzy : ∀ row identity existing desired state,
    core.Reaches enriched row identity existing desired state → core.Untouched enriched state →
      0 < core.matchingRules.fuzzy.tieDelta ∨
        ¬core.matchingRules.fuzzy.SharedTop (fun f => readMatchValue f row desired identity)
          state.records
  topology : ∀ row identity existing desired state rt locator,
    core.Reaches enriched row identity existing desired state →
      runtime = some rt → core.Consulted enriched rt state locator →
        ∀ mode id, TreeDecides rt locator state.records mode →
          (∀ other ∈ nodeIds rt.targetNodeIdField state.records,
            rt.tree.Agrees locator mode other ↔ other = id) →
              ¬SharesNode rt.targetNodeIdField state.records id

variable {core enriched}

theorem Reaches.unique {row row' : Fields} {identity identity' : Identity}
    {existing existing' : Option Fields} {desired desired' : Fields} {state state' : MatchState}
    (h : core.Reaches enriched row identity existing desired state)
    (h' : core.Reaches enriched row' identity' existing' desired' state') :
    row = row' ∧ identity = identity' ∧ existing = existing' ∧ desired = desired' ∧
      state = state' := by
  cases h.read.symm.trans h'.read
  cases h.identified.symm.trans h'.identified
  cases h.desires.symm.trans h'.desires
  cases h.decided.symm.trans h'.decided
  exact ⟨rfl,rfl,rfl,rfl,rfl⟩

theorem FirstHit.unique {row : Fields} {ctx : MatchContext} {rules : List IdentityRule}
    {identity : Identity} {record : Fields} {found : Option Fields} {identity' : Identity}
    {first : Option Identity} (h : core.FirstHit row ctx rules identity [record])
    (h' : core.matchIdentity row ctx rules first = .ok (.ok (identity',found))) :
    identity = identity' ∧ found = some record := by
  rw [matchIdentity_single h first] at h'
  cases h'
  exact ⟨rfl,rfl⟩

theorem no_firstHit {row : Fields} {ctx : MatchContext} {rules : List IdentityRule}
    {identity : Identity} {first : Option Identity}
    (h : core.matchIdentity row ctx rules first = .ok (.ok (identity,none)))
    (identity' : Identity) (records : List Fields) :
    ¬core.FirstHit row ctx rules identity' records := by
  intro hhit
  match records with
  | [] =>
    generalize hnil : [] = records at hhit
    induction hhit generalizing first with
    | hit _ _ _ hne => exact hne hnil.symm
    | empty hbuild hvalue _ ih =>
      simp [matchIdentity, hbuild, hvalue, bind, Except.bind] at h
      exact ih h hnil
    | miss hbuild hvalue hfind _ ih =>
      simp [matchIdentity, hbuild, hvalue, hfind, bind, Except.bind] at h
      exact ih h hnil
  | [record] =>
    obtain ⟨_,hnone⟩ := hhit.unique h
    cases hnone
  | a::b::rest =>
    obtain ⟨item,_,hrun⟩ := matchIdentity_several hhit (by simp) first
    rw [hrun] at h
    cases h

/-- Of two records with a property, one is not the record that is taken. -/
theorem exists_other {P : Fields → Prop} {records rest others : List Fields} {a b record : Fields}
    (h : records.Perm (a::b::rest)) (ha : P a) (hb : P b)
    (h' : records.Perm (record::others)) : ∃ other ∈ others, P other := by
  have hperm := h'.symm.trans h
  rcases List.mem_cons.mp (hperm.mem_iff.mpr List.mem_cons_self) with rfl | hmem
  · have hrest := (List.perm_cons a).mp hperm
    exact ⟨b,hrest.mem_iff.mpr List.mem_cons_self,hb⟩
  · exact ⟨a,hmem,ha⟩

theorem decidesAt_keys {runtime : TopologyMatchRuntime} {locator : List String}
    {records : List Fields} {mode : TopologyMatchMode} :
    DecidesAt runtime.tree locator
      (Dict.keys (candidateRowsByTopologyId runtime.targetNodeIdField records)) runtime.ladder
        mode ↔ TreeDecides runtime locator records mode := by
  constructor
  · exact FirstRung.congr (fun _ => mem_keys_candidateRows) fun _ _ _ => Iff.rfl
  · exact FirstRung.congr (fun _ => mem_keys_candidateRows.symm) fun _ _ _ => Iff.rfl

theorem tree_wellFormed (runtime : TopologyMatchRuntime) : runtime.tree.WellFormed :=
  runtime.builder.build_snapshot_wellFormed runtime.rows

theorem decideCandidates_records (fuzzy : FuzzyScoringRules) (source : String → Value)
    (candidates : List Fields) :
    (fuzzy.decideCandidates source candidates).records.Perm candidates := by
  have hperm := ranking_elements (fuzzy.scoreCandidate source) candidates
  rw [← FuzzyScoringRules.rankCandidates_eq] at hperm
  unfold FuzzyScoringRules.decideCandidates
  cases hrank : fuzzy.rankCandidates source candidates with
  | nil =>
    rw [hrank] at hperm
    exact hperm
  | cons best rest =>
    rw [hrank] at hperm
    exact hperm

/-- The states that come to the refinement: of one record, of the fuzzy candidates, of none. -/
theorem matchState_cases {row desired : Fields} {identity : Identity} {existing : Option Fields}
    {state : MatchState} (h : core.matchState row desired identity existing = .ok state) :
    (∃ record, existing = some record ∧
        state = exactState record core.matchingRules.fuzzy.topK) ∨
      (existing = none ∧ ∃ candidates,
        core.blockingCandidates row desired identity = .ok candidates ∧
          state = core.matchingRules.fuzzy.decideCandidates
            (fun f => readMatchValue f row desired identity) candidates) ∨
        existing = none ∧ state = notFoundState := by
  cases existing with
  | some record =>
    cases h
    exact .inl ⟨record,rfl,rfl⟩
  | none =>
    unfold matchState at h
    dsimp only at h
    split at h
    · rw [matchWithFuzzy_eq] at h
      cases hfound : core.blockingCandidates row desired identity with
      | error exc =>
        rw [hfound] at h
        cases h
      | ok candidates =>
        rw [hfound] at h
        exact .inr (.inl ⟨rfl,candidates,rfl,(Except.ok.inj h).symm⟩)
    · exact .inr (.inr ⟨rfl,(Except.ok.inj h).symm⟩)

/-- Every record that a step works with was found for the row. -/
theorem Reaches.found {row : Fields} {identity : Identity} {existing : Option Fields}
    {desired : Fields} {state : MatchState}
    (h : core.Reaches enriched row identity existing desired state) {record : Fields}
    (hrecord : record ∈ state.records) {matched : MatchedRow} (hid : matched.identity = identity)
    (hdesired : matched.desiredState = desired) : core.FoundFor enriched row matched record := by
  subst hid hdesired
  rcases matchState_cases h.decided with ⟨single,rfl,rfl⟩ | ⟨rfl,candidates,hfound,rfl⟩ | ⟨_,rfl⟩
  · obtain ⟨⟨rule,hrule,hbuild⟩,hfind⟩ := (firstHit_of_matchIdentity h.identified).found
    exact ⟨_,[single],hfind,hrecord,.inl ⟨rule,hrule,_,hbuild,rfl⟩⟩
  · have hmem := (decideCandidates_records _ _ _).mem_iff.mp hrecord
    rcases mem_collectBlockingCandidates hfound hmem with hnil | ⟨key,hkey,records,hfind,hin⟩
    · cases hnil
    · exact ⟨_,records,hfind,hin,.inr ⟨key,hkey,rfl⟩⟩
  · cases hrecord

theorem reaches_of_matchRow {result : TransformResult MatchedRow}
    (h : core.matchRow enriched = .ok result) (hsome : result.row ≠ none) :
    ∃ row identity existing desired state,
      core.Reaches enriched row identity existing desired state := by
  unfold matchRow at h
  dsimp only at h
  split at h
  · cases h
    exact absurd rfl hsome
  · rename_i row hrow
    simp only [bind, Except.bind, pure, Except.pure] at h
    split at h
    · cases h
    · rename_i found hidentity
      split at h
      · cases h
        exact absurd rfl hsome
      · rename_i identity existing
        split at h
        · cases h
        · rename_i desired hdesired
          split at h
          · cases h
          · rename_i state hstate
            exact ⟨row,identity,existing,desired,state,hrow,hidentity,hdesired,hstate⟩

/-- What a comparison of the nodes decides about the records. -/
theorem Consulted.decides {rt : TopologyMatchRuntime} {state : MatchState}
    {locator : List String} {result : ExplainedResult}
    (hrun : compareTopologyCandidates rt.tree.pathOf locator
      (Dict.keys (candidateRowsByTopologyId rt.targetNodeIdField state.records)) rt.ladder =
        .ok result) (id : String) :
    result.matchedCandidateId = some id ↔ ∃ mode, TreeDecides rt locator state.records mode ∧
      ∀ other ∈ nodeIds rt.targetNodeIdField state.records,
        rt.tree.Agrees locator mode other ↔ other = id := by
  rw [(decides_of_run (tree_wellFormed rt) hrun).matched id]
  apply exists_congr
  intro mode
  rw [decidesAt_keys]
  apply and_congr_right
  intro _
  exact ⟨fun h other hother => h other (mem_keys_candidateRows.mpr hother),
    fun h other hother => h other (mem_keys_candidateRows.mp hother)⟩

/-- A refined match is the first record of the matched node. -/
theorem refineWith_matched {rt : TopologyMatchRuntime} {state : MatchState}
    {locator : List String} {result : ExplainedResult}
    (hrun : compareTopologyCandidates rt.tree.pathOf locator
      (Dict.keys (candidateRowsByTopologyId rt.targetNodeIdField state.records)) rt.ladder =
        .ok result)
    (hmatched : (refineWith state (candidateRowsByTopologyId rt.targetNodeIdField state.records)
      (TopologyMatchRuntime.matchResult result)).status = .matched) :
    ∃ id record, result.matchedCandidateId = some id ∧
      (state.records.find? fun other =>
        decide (nodeOf rt.targetNodeIdField other = some id)) = some record ∧
      (refineWith state (candidateRowsByTopologyId rt.targetNodeIdField state.records)
        (TopologyMatchRuntime.matchResult result)).existing = some record := by
  have hdecides := decides_of_run (tree_wellFormed rt) hrun
  cases hid : result.matchedCandidateId with
  | none =>
    exfalso
    rcases hdecides.unmatched hid with hmode | hmode
    · simp [refineWith, TopologyMatchRuntime.matchResult, hid, hmode] at hmatched
    · simp [refineWith, TopologyMatchRuntime.matchResult, hid, hmode] at hmatched
  | some id =>
    obtain ⟨record,hrecord⟩ := Option.isSome_iff_exists.mp
      (Dict.mem_keys_iff.mp (hdecides.mem hid))
    have hbind : (TopologyMatchRuntime.matchResult result).matchedTargetId.bind (Dict.get?
        (candidateRowsByTopologyId rt.targetNodeIdField state.records)) = some record := by
      simp [TopologyMatchRuntime.matchResult, hid, hrecord]
    refine ⟨id,record,rfl,by rw [← get?_candidateRows, hrecord],?_⟩
    simp [refineWith, hbind]

theorem matchDecision_selected {final : MatchState} {record : Fields} (identity : Identity)
    (topology : Option TopologyMatchResult) (hstatus : final.status = .matched)
    (hexisting : final.existing = some record) :
    ∃ selected, (matchDecision final identity topology).selected = some selected ∧
      selected.targetId = idText (candidateId record) := by
  simp [matchDecision, buildSelectedCandidate, hstatus, hexisting]

/-- A completed run that reached the refinement emits the refined state, or gives the row up. -/
theorem emitted_of_reaches {row : Fields} {identity : Identity} {existing : Option Fields}
    {desired : Fields} {state : MatchState}
    (h : core.Reaches enriched row identity existing desired state)
    {result : TransformResult MatchedRow} (hrun : core.matchRow enriched = .ok result) :
    (result.row = none ∧ ∃ item, core.refineWithTopology enriched state = .ok (.error item)) ∨
      ∃ final topology links, core.refineWithTopology enriched state =
          .ok (.ok (final,topology)) ∧
        result.row = some (core.matchedRow row desired (buildMatchContext enriched) identity final
          topology links) := by
  rw [matchRow_of_reaches h] at hrun
  cases hrefine : core.refineWithTopology enriched state with
  | error exc =>
    rw [hrefine] at hrun
    cases hrun
  | ok refined =>
    rw [hrefine] at hrun
    cases refined with
    | error item =>
      cases hrun
      exact .inl ⟨rfl,item,rfl⟩
    | ok refined =>
      cases hlinks : core.buildLinks row (buildMatchContext enriched) with
      | error exc => simp [Except.bind, hlinks, Except.map] at hrun
      | ok links =>
        simp only [Except.bind, hlinks, Except.map, Except.ok.injEq] at hrun
        exact .inr ⟨refined.1,refined.2,links,rfl,by rw [← hrun]⟩

section Sound

variable {runtime : Option TopologyMatchRuntime} {row : Fields} {identity : Identity}
variable {existing : Option Fields} {desired : Fields} {state : MatchState}

/-- A match that the tree did not touch. -/
theorem soundMatch_untouched (hrules : core.matchingRules.fuzzy.postInit = .ok ())
    (hclear : core.ClearCandidates enriched runtime)
    (h : core.Reaches enriched row identity existing desired state)
    (huntouched : core.Untouched enriched state) (links : Dict String Identity)
    (hstatus : state.status = .matched) :
    ∃ record, core.SoundMatch enriched runtime
      (core.matchedRow row desired (buildMatchContext enriched) identity state none links) row
        record := by
  have hrecord : ∃ record, state.existing = some record ∧ record ∈ state.records ∧
      (core.FirstHit row (buildMatchContext enriched) core.matchingRules.identityRules identity
          [record] ∨
        ((∀ identity records, ¬core.FirstHit row (buildMatchContext enriched)
            core.matchingRules.identityRules identity records) ∧
          ∃ candidates, core.blockingCandidates row desired identity = .ok candidates ∧
            core.matchingRules.fuzzy.Accepts (fun f => readMatchValue f row desired identity)
              candidates record)) := by
    have hband := hclear.fuzzy row identity existing desired state h huntouched
    rcases matchState_cases h.decided with ⟨single,rfl,rfl⟩ | ⟨rfl,candidates,hfound,rfl⟩ | ⟨_,rfl⟩
    · exact ⟨single,rfl,List.mem_cons_self,.inl (firstHit_of_matchIdentity h.identified)⟩
    · have hperm := decideCandidates_records core.matchingRules.fuzzy
        (fun f => readMatchValue f row desired identity) candidates
      obtain ⟨record,hexisting,haccepts⟩ := FuzzyScoringRules.accepts_of_matched hrules
        (hband.imp_right fun hnot hshared => hnot (hshared.perm hperm.symm)) hstatus
      have hmem : record ∈ candidates := by
        obtain ⟨_,others,hsplit,_⟩ := haccepts
        exact hsplit.mem_iff.mpr List.mem_cons_self
      exact ⟨record,hexisting,hperm.mem_iff.mpr hmem,
        .inr ⟨no_firstHit h.identified,candidates,hfound,haccepts⟩⟩
    · cases hstatus
  obtain ⟨record,hexisting,hmem,hstep⟩ := hrecord
  exact ⟨record,h.read,hexisting,h.found hmem rfl rfl,
    matchDecision_selected identity none hstatus hexisting,fun _ => hstep,
    fun hsome => absurd rfl hsome⟩

/-- A match that the tree made. -/
theorem soundMatch_consulted (hclear : core.ClearCandidates enriched runtime)
    (h : core.Reaches enriched row identity existing desired state) {rt : TopologyMatchRuntime}
    {locator : List String} (hrt : runtime = some rt)
    (hconsulted : core.Consulted enriched rt state locator) {final : MatchState}
    {topology : Option TopologyMatchResult} (links : Dict String Identity)
    (hrefine : core.refineWithTopology enriched state = .ok (.ok (final,topology)))
    (hstatus : final.status = .matched) :
    ∃ record, core.SoundMatch enriched runtime
      (core.matchedRow row desired (buildMatchContext enriched) identity final topology links) row
        record := by
  obtain ⟨compared,hrun,hrefined⟩ := compared_of_refine hconsulted hrefine
  cases hrefined
  obtain ⟨id,record,hid,hfind,hexisting⟩ := refineWith_matched hrun hstatus
  obtain ⟨mode,hmode,honly⟩ := (Consulted.decides hrun id).mp hid
  have hnode : nodeOf rt.targetNodeIdField record = some id := by
    simpa using List.find?_some hfind
  obtain ⟨hmem,before,after,hsplit,_⟩ := List.find?_eq_some_iff_append.mp hfind
  have hperm : state.records.Perm (record::(before ++ after)) := hsplit ▸ List.perm_middle
  have hrecord : record ∈ state.records := List.mem_of_find?_eq_some hfind
  have hagrees : NodeAgrees rt locator mode record :=
    ⟨id,hnode,(honly id (mem_nodeIds hrecord hnode)).mpr rfl⟩
  have hothers : ∀ other ∈ before ++ after, ¬NodeAgrees rt locator mode other := by
    rintro other hother ⟨node,hcarries,hagree⟩
    have hin := hperm.mem_iff.mpr (List.mem_cons_of_mem record hother)
    have heq := (honly node (mem_nodeIds hin hcarries)).mp hagree
    obtain ⟨front,back,hsplit'⟩ := List.append_of_mem hother
    apply hclear.topology row identity existing desired state rt locator h hrt hconsulted mode id
      hmode honly
    refine ⟨record,other,front ++ back,?_,hnode,heq ▸ hcarries⟩
    rw [hsplit'] at hperm
    exact hperm.trans (List.Perm.cons _ List.perm_middle)
  refine ⟨record,h.read,hexisting,h.found hrecord rfl rfl,
    matchDecision_selected identity _ hstatus hexisting,fun hnone => (by cases hnone),fun _ => ?_⟩
  exact ⟨existing,state,rt,locator,mode,before ++ after,h,hrt,hconsulted,hmode,hperm,hagrees,
    hothers⟩

/-- Candidates that share an acceptable top without a band are matched unsoundly. -/
theorem not_soundMatch_shared (hrules : core.matchingRules.fuzzy.postInit = .ok ())
    (h : core.Reaches enriched row identity existing desired state)
    (hband : ¬0 < core.matchingRules.fuzzy.tieDelta)
    (hshared : core.matchingRules.fuzzy.SharedTop
      (fun f => readMatchValue f row desired identity) state.records)
    (links : Dict String Identity) :
    state.status = .matched ∧ ∀ row' record, ¬core.SoundMatch enriched runtime
      (core.matchedRow row desired (buildMatchContext enriched) identity state none links) row'
        record := by
  rcases matchState_cases h.decided with ⟨single,rfl,rfl⟩ | ⟨rfl,candidates,hfound,rfl⟩ | ⟨_,rfl⟩
  · obtain ⟨a,b,⟨rest,hperm,_⟩,_⟩ := hshared
    have hlength := hperm.length_eq
    simp [exactState] at hlength
  · have hperm := decideCandidates_records core.matchingRules.fuzzy
      (fun f => readMatchValue f row desired identity) candidates
    have hcandidates := hshared.perm hperm
    refine ⟨FuzzyScoringRules.matched_of_sharedTop hrules hband hcandidates,?_⟩
    intro row' record hsound
    cases h.read.symm.trans hsound.source
    rcases hsound.stage rfl with hhit | ⟨_,found,hfound',haccepts⟩
    · exact no_firstHit h.identified _ _ hhit
    · have hsame : found = candidates := Except.ok.inj (hfound'.symm.trans hfound)
      subst hsame
      obtain ⟨a,b,hshares,_⟩ := hcandidates
      exact hshares.not_wins haccepts.wins
  · obtain ⟨a,b,⟨rest,hperm,_⟩,_⟩ := hshared
    have hlength := hperm.length_eq
    simp [notFoundState] at hlength

/-- A node that two records carry is matched unsoundly where it is the only one to agree. -/
theorem not_soundMatch_node
    (h : core.Reaches enriched row identity existing desired state) {rt : TopologyMatchRuntime}
    {locator : List String} (hrt : runtime = some rt)
    (hconsulted : core.Consulted enriched rt state locator) {mode : TopologyMatchMode} {id : String}
    (hmode : TreeDecides rt locator state.records mode)
    (honly : ∀ other ∈ nodeIds rt.targetNodeIdField state.records,
      rt.tree.Agrees locator mode other ↔ other = id)
    (hshares : SharesNode rt.targetNodeIdField state.records id) {final : MatchState}
    {topology : Option TopologyMatchResult} (links : Dict String Identity)
    (hrefine : core.refineWithTopology enriched state = .ok (.ok (final,topology))) :
    final.status = .matched ∧ ∀ row' record, ¬core.SoundMatch enriched runtime
      (core.matchedRow row desired (buildMatchContext enriched) identity final topology links) row'
        record := by
  obtain ⟨compared,hrun,hrefined⟩ := compared_of_refine hconsulted hrefine
  cases hrefined
  have hid := (Consulted.decides hrun id).mpr ⟨mode,hmode,honly⟩
  obtain ⟨a,b,rest,hperm,ha,hb⟩ := hshares
  have hmem := mem_nodeIds (hperm.mem_iff.mpr List.mem_cons_self) ha
  obtain ⟨first,hfirst⟩ := Option.isSome_iff_exists.mp
    (Dict.mem_keys_iff.mp (mem_keys_candidateRows.mpr hmem))
  refine ⟨by simp [refineWith, TopologyMatchRuntime.matchResult, hid, hfirst],?_⟩
  intro row' record hsound
  obtain ⟨existing',state',rt',locator',mode',others,h',hrt',hconsulted',hmode',hperm',_,hnot⟩ :=
    hsound.topology (by simp [matchedRow, matchDecision])
  obtain ⟨_,_,_,_,hstate⟩ := h.unique h'
  cases hrt.symm.trans hrt'
  subst hstate
  cases hconsulted.located.symm.trans hconsulted'.located
  have hsame : mode' = mode := hmode'.unique hmode
  subst hsame
  have hagree := (honly id hmem).mpr rfl
  have hcarry : ∀ other, nodeOf rt.targetNodeIdField other = some id →
      NodeAgrees rt locator mode' other := fun other hother => ⟨id,hother,hagree⟩
  obtain ⟨other,hother,hagrees⟩ := exists_other hperm (hcarry a ha) (hcarry b hb) hperm'
  exact hnot other hother hagrees

end Sound

/-- Several records of the first rule that finds any: the row is given up. -/
theorem matchRow_conflict {row : Fields} {identity : Identity} {records : List Fields}
    (hrow : enriched.row = some row)
    (h : core.FirstHit row (buildMatchContext enriched) core.matchingRules.identityRules identity
      records) (hmany : 2 ≤ records.length) :
    ∃ result, core.matchRow enriched = .ok result ∧ result.row = none ∧
      ∃ item ∈ result.errors, item.code = "MATCH_CONFLICT_TARGET" := by
  obtain ⟨item,hcode,hrun⟩ := matchIdentity_several h hmany none
  refine ⟨failed enriched (buildMatchContext enriched) [item],?_,rfl,item,?_,hcode⟩
  · unfold matchRow
    rw [hrow]
    simp [hrun, bind, Except.bind, pure, Except.pure]
  · simp [failed]

theorem sound_iff (runtime : Option TopologyMatchRuntime)
    (hservices : core.topologyServices = runtime.map TopologyMatchRuntime.services)
    (hrules : core.matchingRules.fuzzy.postInit = .ok ())
    {result : TransformResult MatchedRow} (hrun : core.matchRow enriched = .ok result) :
    (∀ matched ∈ result.row, matched.matchDecision.status = .matched →
      ∃ row record, core.SoundMatch enriched runtime matched row record) ↔
        core.ClearCandidates enriched runtime := by
  constructor
  · intro hsound
    refine ⟨fun row identity existing desired state h huntouched => ?_,
      fun row identity existing desired state rt locator h hrt hconsulted mode id hmode honly
        hshares => ?_⟩
    · by_contra hnot
      obtain ⟨hband,hshared⟩ := not_or.mp hnot
      rcases emitted_of_reaches h hrun with ⟨_,item,hrefine⟩ | ⟨final,topology,links,hrefine,hemit⟩
      · rw [refine_untouched huntouched] at hrefine
        cases hrefine
      · rw [refine_untouched huntouched] at hrefine
        cases hrefine
        obtain ⟨hstatus,hbad⟩ := @not_soundMatch_shared core enriched runtime row identity
          existing desired state hrules h hband (not_not.mp hshared) links
        obtain ⟨row',record,hmatch⟩ := hsound _ hemit hstatus
        exact hbad row' record hmatch
    · rcases emitted_of_reaches h hrun with ⟨_,item,hrefine⟩ | ⟨final,topology,links,hrefine,hemit⟩
      · obtain ⟨_,_,hrefined⟩ := compared_of_refine hconsulted hrefine
        cases hrefined
      · obtain ⟨hstatus,hbad⟩ := not_soundMatch_node h hrt hconsulted hmode honly hshares links
          hrefine
        obtain ⟨row',record,hmatch⟩ := hsound _ hemit hstatus
        exact hbad row' record hmatch
  · intro hclear matched hmatched hstatus
    have hsome : result.row ≠ none := by
      rw [show result.row = some matched from hmatched]
      simp
    obtain ⟨row,identity,existing,desired,state,h⟩ := reaches_of_matchRow hrun hsome
    rcases emitted_of_reaches h hrun with ⟨hnone,_⟩ | ⟨final,topology,links,hrefine,hemit⟩
    · exact absurd hnone hsome
    · cases hemit.symm.trans hmatched
      rcases refine_cases hservices hrefine with ⟨huntouched,rfl,rfl⟩ | ⟨rt,locator,hrt,hconsulted⟩
      · exact ⟨row,soundMatch_untouched hrules hclear h huntouched links hstatus⟩
      · exact ⟨row,soundMatch_consulted hclear h hrt hconsulted links hrefine hstatus⟩

/-- A conflict of the first rule with a hit gives the row up. A completed run matches soundly
exactly when the candidates of the deciding step are clear. -/
theorem match_sound_iff (core : MatchCore) (runtime : Option TopologyMatchRuntime)
    (enriched : TransformResult Fields) (hrules : core.matchingRules.fuzzy.postInit = .ok ()) :
    (∀ row identity records, enriched.row = some row →
      (core.withTopology runtime).FirstHit row (buildMatchContext enriched)
        core.matchingRules.identityRules identity records → 2 ≤ records.length →
          ∃ result, (core.withTopology runtime).matchRow enriched = .ok result ∧
            result.row = none ∧ ∃ item ∈ result.errors, item.code = "MATCH_CONFLICT_TARGET") ∧
    ∀ result, (core.withTopology runtime).matchRow enriched = .ok result →
      ((∀ matched ∈ result.row, matched.matchDecision.status = .matched →
        ∃ row record, (core.withTopology runtime).SoundMatch enriched runtime matched row record) ↔
          (core.withTopology runtime).ClearCandidates enriched runtime) := by
  constructor
  · intro row identity records hrow hhit hmany
    exact matchRow_conflict hrow hhit hmany
  · intro result hrun
    have hmatcher : (core.withTopology runtime).matchingRules.fuzzy.postInit = .ok () := hrules
    exact sound_iff runtime rfl hmatcher hrun

end Steps
end MatchCore

section Samples

def branchRuntime : TopologyMatchRuntime :=
  { targetNodeIdField := "_ouid"
    build := fun _ => .ok (some ["head office","branch"])
    builder := ⟨[]⟩
    rows := headOffice
    ladder := [.exactCanonicalPath] }

/-- Nobody has the e-mail address of the row; the tree is asked about a tie. -/
def branchMatcher (records : List Fields) : MatchCore :=
  { nameMatcher (1/20) records with
    find := fun _ filter _ => .ok (if (Dict.get? filter "email").isSome then [] else records)
    matchingRules := { (nameMatcher (1/20) records).matchingRules with
      identityRules := [⟨"email",fun _ _ => .ok annIdentity⟩]
      topology := some ⟨true,.ambiguousOnly,.skip⟩ } }

def branchRow : TransformResult Fields :=
  { record := ⟨2,"line:2",[]⟩, row := some annRow, rowRef := none, matchKey := some "Ann"
    metadata := [], secretCandidates := [], errors := [], warnings := [] }

def inUnit (node : String) (record : Fields) : Fields := record ++ [("_ouid",.str node)]

def branches : MatchCore :=
  branchMatcher [inUnit "20" (named "1" "Ann"),inUnit "10" (named "2" "Ann")]

theorem match_sound_branches :
    (∀ row identity records, branchRow.row = some row →
      (branches.withTopology (some branchRuntime)).FirstHit row (buildMatchContext branchRow)
        branches.matchingRules.identityRules identity records → 2 ≤ records.length →
          ∃ result, (branches.withTopology (some branchRuntime)).matchRow branchRow = .ok result ∧
            result.row = none ∧ ∃ item ∈ result.errors, item.code = "MATCH_CONFLICT_TARGET") ∧
    ∀ result, (branches.withTopology (some branchRuntime)).matchRow branchRow = .ok result →
      ((∀ matched ∈ result.row, matched.matchDecision.status = .matched → ∃ row record,
        (branches.withTopology (some branchRuntime)).SoundMatch branchRow (some branchRuntime)
          matched row record) ↔
        (branches.withTopology (some branchRuntime)).ClearCandidates branchRow
          (some branchRuntime)) :=
  MatchCore.match_sound_iff branches (some branchRuntime) branchRow (by decide +kernel)

def sharedNode : List Fields := [inUnit "20" (named "1" "Ann"),inUnit "20" (named "2" "Ann")]

/-- The record that a MATCHED row carries which the exact path of the tree has decided. -/
def matchedByTree (records : List Fields) : Option Fields := do
  let core := (branchMatcher records).withTopology (some branchRuntime)
  let result ← (core.matchRow branchRow).toOption
  let matched ← result.row
  guard (matched.matchDecision.status = .matched)
  guard (matched.matchDecision.reasonCode = "topology_exact_canonical_path")
  matched.existing

/-- Two records of node 20: the first one is matched, and nothing tells the second apart. -/
theorem shared_node_takes_first :
    (branchMatcher []).matchingRules.fuzzy.postInit = .ok () ∧
      matchedByTree sharedNode = some (inUnit "20" (named "1" "Ann")) ∧
      matchedByTree sharedNode.reverse = some (inUnit "20" (named "2" "Ann")) := by
  decide +kernel

end Samples
end NexusEtl
