import NexusEtl.BatchLinks
import NexusEtl.LinkSteps

/-!
# The dataset of a link's answer

A link rule names the dataset that it points to and the field that holds the
identifiers there. The batch index knows neither: it is flat, and one field
supplies all of its identifiers. The module says which link rules it answers
from the right records, whatever the batch and the identity index hold. Several
candidates may be told apart by their paths in the target's tree.
-/

set_option autoImplicit false

namespace NexusEtl
open NexusEtl.Library

namespace TopologyComparison

/-- The last two segments of a path. -/
def leafPair (path : List String) : List String := path.drop (path.length - 2)

def candidateMatchesMode (source path : List String) : TopologyMatchMode → Bool
  | .exactCanonicalPath => path == source
  | .exactLeafParentChain =>
    2 ≤ source.length && 2 ≤ path.length && leafPair path == leafPair source
  | .exactLeafRootDepth => !source.isEmpty && !path.isEmpty &&
      path.getLast? == source.getLast? && path.head? == source.head? && path.length == source.length
  | .ambiguous | .noMatch => false

def matchCandidates (canonicalPath : String → Except PyException (List String))
    (source : List String) (mode : TopologyMatchMode) :
    List String → Except PyException (List String)
  | [] => .ok []
  | id::ids => do
    let path ← canonicalPath id
    let rest ← matchCandidates canonicalPath source mode ids
    return if candidateMatchesMode source path mode then id::rest else rest

structure Result where
  matchedCandidateIds : List String
  mode : TopologyMatchMode
  reason : String
  deriving DecidableEq, Repr

def climb (canonicalPath : String → Except PyException (List String)) (source ids : List String) :
    List TopologyMatchMode → Except PyException Result
  | [] => .ok ⟨[],.noMatch,"no_topology_confirmation"⟩
  | mode::ladder => do
    match ← matchCandidates canonicalPath source mode ids with
    | [] => climb canonicalPath source ids ladder
    | [id] => return ⟨[id],mode,"resolved_by_" ++ mode.value⟩
    | matched => return ⟨matched,.ambiguous,"ambiguous_on_" ++ mode.value⟩

/-- `compare_topology_candidates` -/
def compare (canonicalPath : String → Except PyException (List String)) (source ids : List String)
    (ladder : List TopologyMatchMode) : Except PyException Result :=
  if source = [] ∨ ids = [] then .ok ⟨[],.noMatch,"empty_source_or_candidates"⟩
  else climb canonicalPath source ids.eraseDups ladder

theorem matchCandidates_subset {canonicalPath : String → Except PyException (List String)}
    {source ids matched : List String} {mode : TopologyMatchMode}
    (h : matchCandidates canonicalPath source mode ids = .ok matched) :
    ∀ id ∈ matched, id ∈ ids := by
  induction ids generalizing matched with
  | nil =>
    cases h
    simp
  | cons first ids ih =>
    unfold matchCandidates at h
    cases hpath : canonicalPath first with
    | error exc => simp [hpath, bind, Except.bind] at h
    | ok path =>
      cases hrest : matchCandidates canonicalPath source mode ids with
      | error exc => simp [hpath, hrest, bind, Except.bind] at h
      | ok rest =>
        simp only [hpath, hrest, bind, Except.bind, pure, Except.pure, Except.ok.injEq] at h
        intro id hid
        rw [← h] at hid
        split at hid
        · rcases List.mem_cons.mp hid with rfl | hid
          · exact List.mem_cons_self
          · exact List.mem_cons_of_mem _ (ih hrest id hid)
        · exact List.mem_cons_of_mem _ (ih hrest id hid)

theorem climb_subset {canonicalPath : String → Except PyException (List String)}
    {source ids : List String} {ladder : List TopologyMatchMode} {result : Result}
    (h : climb canonicalPath source ids ladder = .ok result) :
    ∀ id ∈ result.matchedCandidateIds, id ∈ ids := by
  induction ladder with
  | nil =>
    cases h
    simp
  | cons mode ladder ih =>
    unfold climb at h
    cases hmatched : matchCandidates canonicalPath source mode ids with
    | error exc => simp [hmatched, bind, Except.bind] at h
    | ok matched =>
      have hsubset := matchCandidates_subset hmatched
      simp only [hmatched, bind, Except.bind] at h
      split at h
      · exact ih h
      · cases h
        exact hsubset
      · cases h
        exact hsubset

theorem compare_subset {canonicalPath : String → Except PyException (List String)}
    {source ids : List String} {ladder : List TopologyMatchMode} {result : Result}
    (h : compare canonicalPath source ids ladder = .ok result) :
    ∀ id ∈ result.matchedCandidateIds, id ∈ ids := by
  unfold compare at h
  split at h
  · cases h
    simp
  · exact fun id hid => List.mem_eraseDups.mp (climb_subset h id hid)

end TopologyComparison

/-- The resolve-side topology services: the locator builder, the target's tree, the ladder. -/
structure TopologyLinkRuntime where
  build : SourceRecord → Except PyException (Option (List String))
  canonicalPath : String → Except PyException (List String)
  ladder : List TopologyMatchMode

namespace TopologyLinkRuntime

def linkResult (result : TopologyComparison.Result) : TopologyLinkResolutionResult :=
  { resolvedTargetId := match result.matchedCandidateIds with
      | [id] => .str id
      | _ => .null
    isAmbiguous := result.mode == .ambiguous
    mode := result.mode
    reason := some result.reason }

/-- `TopologyLinkResolutionService` over a snapshot and a policy. -/
def services (runtime : TopologyLinkRuntime) : TopologyLinkServices :=
  { build := runtime.build
    resolveLink := fun _ source ids =>
      (TopologyComparison.compare runtime.canonicalPath source ids runtime.ladder).map linkResult }

/-- A confirmed identifier is one of the candidates. -/
theorem resolveLink_mem {runtime : TopologyLinkRuntime} {field : String}
    {source ids : List String} {result : TopologyLinkResolutionResult}
    (h : runtime.services.resolveLink field source ids = .ok result)
    (hid : result.resolvedTargetId.isNull = false) : result.resolvedTargetId.pyStr ∈ ids := by
  simp only [services] at h
  cases hcompare : TopologyComparison.compare runtime.canonicalPath source ids runtime.ladder with
  | error exc => simp [hcompare, Except.map] at h
  | ok compared =>
    have hsubset := TopologyComparison.compare_subset hcompare
    rw [hcompare] at h
    cases h
    unfold linkResult at hid ⊢
    dsimp only at hid ⊢
    split at hid
    · rename_i id hone
      rw [hone] at hsubset
      exact hsubset id (List.mem_singleton_self id)
    · cases hid

end TopologyLinkRuntime

namespace ResolveCore

/-- A core whose topology services are those of a runtime, when it has one. -/
def withTopology (core : ResolveCore) (runtime : Option TopologyLinkRuntime) : ResolveCore :=
  { core with topologyServices := runtime.map TopologyLinkRuntime.services }

/-- The answer of a link comes from the dataset that its rule points to: from the identity
index when no row of the batch has the key, else from a row of the batch, which then is of
that dataset and has the identifier in the rule's own field. -/
def LinkSound (core : ResolveCore) (dataset : String) (rows : List (TransformResult MatchedRow))
    (db : IdentityDb) (hit : LinkHit) : Prop :=
  if bucket (core.buildBatchIndex rows) hit.lookupKey = [] then
    hit.resolvedId ∈ db.findCandidates hit.rule.targetDataset hit.lookupKey
  else hit.rule.targetDataset = dataset ∧ ∃ m ∈ rows, ∃ row, m.row = some row ∧
    hit.lookupKey ∈ batchKeys core.batchKeyNames row ∧
    extractResolvedId row hit.rule.targetIdField = some hit.resolvedId

variable {core : ResolveCore} {db : IdentityDb} {call : ResolveCall} {s : LinkState}

/-- A hit that the state did not have names a candidate of its key. -/
def HitsFrom (core : ResolveCore) (db : IdentityDb) (call : ResolveCall) (s : LinkState) :
    Prop :=
  ∀ hit ∈ s.hits, hit.rule ∈ core.linkRules ∧
    hit.resolvedId ∈ lookupCandidates call.batchIndex db hit.rule.targetDataset hit.lookupKey

theorem settleLink_hitsFrom (other : ResolveCore) {rule : LinkFieldRule}
    {lookupKey resolvedId reason : Option String} (h : HitsFrom core db call s)
    (ha : ∀ id, resolvedId = some id → rule ∈ core.linkRules ∧
      id ∈ lookupCandidates call.batchIndex db rule.targetDataset (lookupKey.getD "")) :
    HitsFrom core db call (other.settleLink call rule lookupKey resolvedId reason s).2 := by
  unfold settleLink
  split
  · rename_i id
    intro hit hmem
    rw [setLink_hits] at hmem
    rcases List.mem_append.mp hmem with hmem | hmem
    · exact h hit hmem
    · rw [List.mem_singleton.mp hmem]
      exact ha id rfl
  · split
    · exact h
    · intro hit hmem
      rw [createPendingLink_hits] at hmem
      exact h hit hmem

/-- Every candidate that a lookup leaves is a candidate of the key that it used. -/
theorem resolveWithRules_candidates {rule : LinkFieldRule} {keyValues : Dict String String}
    {desired : Fields} {batchIndex : BatchIndex} {keys : List LinkKeyRule} {used : Option String}
    {id : String}
    (h : id ∈ (resolveWithRules rule keyValues desired db batchIndex keys used).candidateIds) :
    id ∈ lookupCandidates batchIndex db rule.targetDataset
      ((resolveWithRules rule keyValues desired db batchIndex keys used).usedLookup.getD "") := by
  induction keys generalizing used with
  | nil => cases h
  | cons key keys ih =>
    simp only [resolveWithRules] at h ⊢
    split at h
    · exact ih h
    · rename_i value hvalue
      split at h
      · exact ih h
      · rename_i only hcandidates
        simpa [hcandidates] using h
      · split at h
        · rename_i hnarrowed
          have hmem : id ∈ applyDedupRules rule keyValues desired db batchIndex
              (lookupCandidates batchIndex db rule.targetDataset
                (formatIdentityKey key.name value)) := by
            rw [hnarrowed]
            exact h
          exact applyDedupRules_subset hmem
        · exact applyDedupRules_subset h

/-- A decision of the topology policy that resolves a link picks one of its candidates. -/
theorem resolveWithTopology_mem {runtime : Option TopologyLinkRuntime} {rule : LinkFieldRule}
    {ids : List String} {decision : TopologyLinkDecision} {id : String}
    (h : (core.withTopology runtime).resolveWithTopology call rule ids = .ok (some decision))
    (hid : decision.resolvedId = some id) : id ∈ ids := by
  have hpolicy : ∀ ambiguous fallback locator result,
      (core.withTopology runtime).applyTopologyPolicy ids ambiguous fallback locator result ≠
        decision := by
    intro ambiguous fallback locator result heq
    rw [← heq] at hid
    unfold applyTopologyPolicy at hid
    split at hid
    · cases hid
    · split at hid <;> cases hid
  unfold resolveWithTopology at h
  cases runtime with
  | none =>
    simp only [withTopology, Option.map_none] at h
    cases h
  | some runtime =>
    simp only [withTopology, Option.map_some, bind, Except.bind, pure, Except.pure] at h hpolicy
    split at h
    · cases h
    · split at h
      · exact absurd (Option.some.inj (Except.ok.inj h)) (hpolicy _ _ _ _)
      · split at h
        · cases h
        · rename_i result hresult
          split at h
          · rename_i hnonnull
            cases h
            cases hid
            exact TopologyLinkRuntime.resolveLink_mem hresult (by simpa using hnonnull)
          · split at h
            · exact absurd (Option.some.inj (Except.ok.inj h)) (hpolicy _ _ _ _)
            · exact absurd (Option.some.inj (Except.ok.inj h)) (hpolicy _ _ _ _)

theorem resolveLink_hitsFrom {runtime : Option TopologyLinkRuntime} {rule : LinkFieldRule}
    (hr : rule ∈ core.linkRules) (h : HitsFrom core db call s) :
    HitsFrom core db call ((core.withTopology runtime).resolveLink db call rule s).2 := by
  unfold resolveLink
  split
  · exact h
  · dsimp only
    split
    · exact h
    · refine settleLink_hitsFrom (core.withTopology runtime) h fun id hid => ⟨hr,?_⟩
      obtain ⟨key,hkey,hmem⟩ := resolveWithRules_mem hid
      rw [hkey]
      exact hmem
    · rename_i decision hdecision
      split
      · refine settleLink_hitsFrom (core.withTopology runtime) h fun id hid => ⟨hr,?_⟩
        unfold topologyDecision at hdecision
        split at hdecision
        · exact resolveWithRules_candidates (resolveWithTopology_mem hdecision hid)
        · cases hdecision
      · exact h
      · intro hit hmem
        rw [createPendingLink_hits] at hmem
        exact h hit hmem

theorem resolveLinkLoop_hitsFrom {runtime : Option TopologyLinkRuntime}
    {rules : List LinkFieldRule} (hr : ∀ rule ∈ rules, rule ∈ core.linkRules)
    (h : HitsFrom core db call s) :
    HitsFrom core db call ((core.withTopology runtime).resolveLinkLoop db call rules s).2 := by
  induction rules generalizing s with
  | nil => exact h
  | cons rule rules ih =>
    have hstep : HitsFrom core db call ((core.withTopology runtime).resolveLink db call rule s).2 :=
      resolveLink_hitsFrom (hr rule List.mem_cons_self) h
    unfold resolveLinkLoop
    split
    · rename_i heq
      rw [heq] at hstep
      exact ih (fun r hr' => hr r (List.mem_cons_of_mem _ hr')) hstep
    · rename_i heq
      rw [heq] at hstep
      exact hstep
    · rename_i heq
      rw [heq] at hstep
      exact hstep

theorem finish_hits (mutated : List String) :
    (core.finish call mutated s).hits = s.hits := by
  unfold finish
  dsimp only
  split
  · rfl
  · split
    · rfl
    · split
      · rfl
      · split
        · rfl
        · split <;> rfl

/-- Every link that a row has answered names a candidate of its key. -/
theorem resolve_hitsFrom (core : ResolveCore) (runtime : Option TopologyLinkRuntime)
    (db : IdentityDb) (call : ResolveCall) :
    ∀ hit ∈ ((core.withTopology runtime).resolve db call).hits, hit.rule ∈ core.linkRules ∧
      hit.resolvedId ∈ lookupCandidates call.batchIndex db hit.rule.targetDataset
        hit.lookupKey := by
  have haccepted : ∀ hit ∈ ((core.withTopology runtime).resolveAccepted db call).hits,
      hit.rule ∈ core.linkRules ∧ hit.resolvedId ∈
        lookupCandidates call.batchIndex db hit.rule.targetDataset hit.lookupKey := by
    unfold resolveAccepted
    split
    · intro hit hmem
      cases hmem
    · rename_i desired mutated hmerge
      have hlinks : HitsFrom core db call ((core.withTopology runtime).resolveLinks db call
          (LinkState.start db.pending desired)).2 := by
        have hstart : HitsFrom core db call (LinkState.start db.pending desired) := by
          intro hit hmem
          cases hmem
        unfold resolveLinks
        split
        · exact hstart
        · split
          · exact hstart
          · exact resolveLinkLoop_hitsFrom (fun _ hr => hr) hstart
      split
      · rename_i hloop
        rw [hloop] at hlinks
        exact hlinks
      · rename_i hloop
        rw [hloop] at hlinks
        rw [finish_hits]
        exact hlinks
  unfold resolve
  split
  · intro hit hmem
    cases hmem
  · intro hit hmem
    cases hmem
  · exact haccepted
  · exact haccepted

/-- The link rules point to the planned dataset and read its identifiers from one field. -/
def PointHome (rules : List LinkFieldRule) (dataset : String) : Prop :=
  ∀ rule ∈ rules, rule.targetDataset = dataset ∧ rule.targetIdField = (collectBatchKeys rules).2

/-- An answer under a key that the batch supplies is sound when its rule points home. -/
theorem linkSound_of_home {dataset : String} {rows : List (TransformResult MatchedRow)}
    {hit : LinkHit} (hhome : hit.rule.targetDataset = dataset ∧
      hit.rule.targetIdField = core.batchIdField)
    (hmem : hit.resolvedId ∈ lookupCandidates (core.buildBatchIndex rows) db
      hit.rule.targetDataset hit.lookupKey) :
    LinkSound core dataset rows db hit := by
  have hbucket : (Dict.get? (core.buildBatchIndex rows) hit.lookupKey).getD [] =
      bucket (core.buildBatchIndex rows) hit.lookupKey := rfl
  unfold lookupCandidates at hmem
  dsimp only at hmem
  rw [hbucket] at hmem
  unfold LinkSound
  split at hmem
  · rename_i hempty
    rw [if_pos hempty]
    exact hmem
  · rename_i hfull
    rw [if_neg hfull]
    obtain ⟨m,hm,row,hrow,hextract,_,hkey⟩ :=
      core.mem_buildBatchIndex.mp (List.mem_eraseDups.mp hmem)
    refine ⟨hhome.1,m,hm,row,hrow,hkey,?_⟩
    rw [hhome.2]
    exact hextract

end ResolveCore

section Stray

open World

/-- A batch row known by one key value, whose identifier stands in one field only. -/
def strayRow (keyName idField : String) : MatchedRow :=
  { newRow 1 "line:1" "v" .null [(idField,.str "x")] with identity := ⟨keyName,[(keyName,"v")]⟩ }

/-- A row with one link field, whose first key the metadata gives. -/
def strayCall (core : ResolveCore) (field keyName idField : String) : ResolveCall :=
  { callOn (newRow 2 "line:2" "w" (.str "y") [(field,.str "v")]) with
    metadata := [("link_keys",.dict [(field,.dict [(keyName,.str "v")])])]
    batchIndex := core.buildBatchIndex [arriving (strayRow keyName idField)] }

theorem strip_v : Text.strip "v" = "v" := by decide

theorem strayRow_extract (keyName idField field : String) :
    extractResolvedId (strayRow keyName idField) field = if field = idField then some "x"
      else none := by
  have hexisting : existingId (strayRow keyName idField) field = .null := rfl
  have htarget : (strayRow keyName idField).targetId = .null := rfl
  have hread : Fields.read (strayRow keyName idField).desiredState field =
      if field = idField then .str "x" else .null := by
    by_cases h : field = idField
    · simp [strayRow, newRow, Fields.read, Dict.get?, h]
    · simp [strayRow, newRow, Fields.read, Dict.get?, h, Ne.symm h]
  unfold extractResolvedId
  rw [hexisting, htarget, hread]
  by_cases h : field = idField
  · have hstrip : Text.strip "x" = "x" := by decide
    simp [h, Value.isNull, Value.pyStr, hstrip]
  · simp [h, Value.isNull, Value.truthy]

/-- A key that an override names has the text of the override. -/
theorem extractKeyValues_override {desired : Fields} {keys : List LinkKeyRule}
    {overrides : Dict String String} {name : String} (h : Dict.get? overrides name = some "v")
    (hname : name ∈ keys.map LinkKeyRule.name) :
    Dict.get? (extractKeyValues desired keys overrides) name = some "v" := by
  have htext : keyText (.str "v") = some "v" := by decide
  have hvalues : Dict.get? ([] : Dict String String) name = some "v" ∨
      name ∈ keys.map LinkKeyRule.name := .inr hname
  unfold extractKeyValues
  generalize ([] : Dict String String) = values at hvalues ⊢
  clear hname
  induction keys generalizing values with
  | nil => simpa using hvalues
  | cons key keys ih =>
    rw [List.foldl_cons]
    by_cases hkey : key.name = name
    · apply ih
      left
      simp [hkey, h, htext]
    · apply ih
      rcases hvalues with hvalues | hvalues
      · left
        dsimp only
        split
        · rw [Dict.get?_set_ne _ _ hkey]
          exact hvalues
        · exact hvalues
      · right
        rcases List.mem_cons.mp hvalues with heq | hvalues
        · exact absurd heq.symm hkey
        · exact hvalues

end Stray

namespace ResolveCore

open World

variable {core : ResolveCore} {db : IdentityDb} {call : ResolveCall}

/-- A link rule whose field is empty leaves the state of the loop alone. -/
theorem resolveLinkLoop_skips {rules rest : List LinkFieldRule} {s : LinkState}
    (h : ∀ rule ∈ rules, (Fields.read s.desired rule.field).isNull = true) :
    core.resolveLinkLoop db call (rules ++ rest) s = core.resolveLinkLoop db call rest s := by
  induction rules with
  | nil => rfl
  | cons rule rules ih =>
    have hskip : core.resolveLink db call rule s = (.next,s) := by
      simp [resolveLink, isSkipped, h rule List.mem_cons_self]
    rw [List.cons_append, resolveLinkLoop, hskip]
    exact ih fun r hr => h r (List.mem_cons_of_mem _ hr)

theorem stray_supplies (core : ResolveCore) {keyName : String}
    (hname : keyName ∈ core.batchKeyNames) :
    core.Supplies (strayRow keyName core.batchIdField) (formatIdentityKey keyName "v") "x" := by
  refine ⟨by rw [strayRow_extract, if_pos rfl],by decide,?_⟩
  have hvalue : extractIdentityValue (strayRow keyName core.batchIdField) keyName = some "v" := by
    simp [extractIdentityValue, strayRow, Dict.get?, Option.filter, strip_v]
  exact List.mem_filterMap.mpr ⟨keyName,hname,by rw [hvalue]; rfl⟩

theorem stray_candidates (core : ResolveCore) (db : IdentityDb) (dataset : String)
    {keyName : String} (hname : keyName ∈ core.batchKeyNames) :
    lookupCandidates (core.buildBatchIndex [arriving (strayRow keyName core.batchIdField)]) db
      dataset (formatIdentityKey keyName "v") = ["x"] := by
  have hmem : ∀ id, id ∈ bucket (core.buildBatchIndex
      [arriving (strayRow keyName core.batchIdField)]) (formatIdentityKey keyName "v") ↔
      id = "x" := by
    intro id
    rw [core.mem_buildBatchIndex]
    constructor
    · rintro ⟨m,hm,row,hrow,hsupplies⟩
      rw [List.mem_singleton.mp hm] at hrow
      cases hrow
      have hid := hsupplies.1
      rw [strayRow_extract, if_pos rfl, Option.some.injEq] at hid
      exact hid.symm
    · rintro rfl
      exact ⟨_,List.mem_singleton_self _,_,rfl,stray_supplies core hname⟩
  unfold lookupCandidates
  dsimp only
  unfold bucket at hmem
  revert hmem
  cases (Dict.get? (core.buildBatchIndex [arriving (strayRow keyName core.batchIdField)])
      (formatIdentityKey keyName "v")).getD [] with
  | nil => simp
  | cons first ids =>
    intro hmem
    have hfirst : first = "x" := (hmem first).mp List.mem_cons_self
    have hrest : ids.filter (fun id => !id == first) = [] := by
      rw [List.filter_eq_nil_iff]
      intro id hid
      simp [hfirst, (hmem id).mp (List.mem_cons_of_mem _ hid)]
    rw [if_neg (by simp), List.eraseDups_cons, hrest, hfirst]
    rfl

theorem stray_resolveLink (core : ResolveCore) {rule : LinkFieldRule} {key : LinkKeyRule}
    {keys : List LinkKeyRule} {s : LinkState} (hkeys : rule.resolveKeys = key::keys)
    (hname : key.name ∈ core.batchKeyNames) (hread : Fields.read s.desired rule.field = .str "v") :
    core.resolveLink db (strayCall core rule.field key.name core.batchIdField) rule s =
      (.next,setLink rule (some (formatIdentityKey key.name "v")) "x" s) := by
  have hoverride : extractLinkKeyOverrides
      (strayCall core rule.field key.name core.batchIdField).metadata rule.field =
      [(key.name,"v")] := by
    simp [strayCall, extractLinkKeyOverrides, Fields.read, Dict.get?, Value.isNull, Value.pyStr,
      strip_v]
  have hvalue : Dict.get? (extractKeyValues s.desired rule.resolveKeys [(key.name,"v")])
      key.name = some "v" :=
    extractKeyValues_override (by simp [Dict.get?]) (by simp [hkeys])
  have hcandidates : lookupCandidates
      (strayCall core rule.field key.name core.batchIdField).batchIndex db rule.targetDataset
      (formatIdentityKey key.name "v") = ["x"] :=
    stray_candidates core db rule.targetDataset hname
  have hlookup : resolveWithRules rule
      (extractKeyValues s.desired rule.resolveKeys [(key.name,"v")]) s.desired db
      (strayCall core rule.field key.name core.batchIdField).batchIndex rule.resolveKeys none =
      ⟨some "x",none,some (formatIdentityKey key.name "v"),["x"]⟩ := by
    rw [hkeys] at hvalue ⊢
    simp only [resolveWithRules, hvalue, Option.filter]
    rw [if_pos (by decide)]
    dsimp only
    rw [hcandidates]
  unfold resolveLink isSkipped
  rw [hread]
  simp only [Value.isNull, isInt, Bool.false_and, Bool.or_self, Bool.false_eq_true, if_false]
  rw [hoverride, hlookup]
  rfl

/-- The stray row answers the first key of the rule, whatever its dataset and field. -/
theorem stray_hit {rules before after : List LinkFieldRule} {rule : LinkFieldRule}
    {key : LinkKeyRule} {keys : List LinkKeyRule} (db : IdentityDb)
    (hrules : rules = before ++ rule::after) (hkeys : rule.resolveKeys = key::keys)
    (hbefore : ∀ r ∈ before, r.field ≠ rule.field) (hafter : ∀ r ∈ after, r.field ≠ rule.field) :
    ⟨rule,formatIdentityKey key.name "v","x"⟩ ∈ ((plainCore rules).resolve db
      (strayCall (plainCore rules) rule.field key.name (plainCore rules).batchIdField)).hits := by
  let core := plainCore rules
  let call := strayCall core rule.field key.name core.batchIdField
  let start := LinkState.start db.pending call.matched.desiredState
  have hother : ∀ r : LinkFieldRule, r.field ≠ rule.field →
      (Fields.read start.desired r.field).isNull = true := by
    intro r hr
    simp [start, LinkState.start, call, strayCall, callOn, newRow, Fields.read, Dict.get?,
      Ne.symm hr, Value.isNull]
  have hrule : core.resolveLink db call rule start =
      (.next,setLink rule (some (formatIdentityKey key.name "v")) "x" start) := by
    apply stray_resolveLink core hkeys
    · simp [core, batchKeyNames, collectBatchKeys, plainCore, hrules, hkeys]
    · simp [start, LinkState.start, call, strayCall, callOn, newRow, Fields.read, Dict.get?]
  have hlinks : core.resolveLinks db call start =
      (none,setLink rule (some (formatIdentityKey key.name "v")) "x" start) := by
    have hne : core.linkRules ≠ [] := by simp [core, plainCore, hrules]
    have hlist : core.linkRules = before ++ rule::(after ++ []) := by
      simp [core, plainCore, hrules]
    have hloop : core.resolveLinkLoop db call core.linkRules start =
        (none,setLink rule (some (formatIdentityKey key.name "v")) "x" start) := by
      rw [hlist, resolveLinkLoop_skips fun r hr => hother r (hbefore r hr), resolveLinkLoop,
        hrule]
      apply resolveLinkLoop_skips
      intro r hr
      rw [setLink_frame (hafter r hr)]
      exact hother r (hafter r hr)
    rw [resolveLinks, if_neg hne]
    exact hloop
  have hresolve : core.resolve db call =
      core.finish call [] (setLink rule (some (formatIdentityKey key.name "v")) "x" start) := by
    have haccepted : core.resolve db call = core.resolveAccepted db call := rfl
    have hmerge : core.applyMergePolicy call.matched = .ok (call.matched.desiredState,[]) := rfl
    rw [haccepted, resolveAccepted, hmerge]
    dsimp only
    rw [hlinks]
  show _ ∈ (core.resolve db call).hits
  rw [hresolve, finish_hits, setLink_hits]
  exact List.mem_append_right _ (List.mem_singleton_self _)

/-- Whatever the batch and the identity index hold, the rules are answered from the records
that they ask for. -/
def AnswersSound (rules : List LinkFieldRule) (dataset : String) : Prop :=
  ∀ (core : ResolveCore) (runtime : Option TopologyLinkRuntime), core.linkRules = rules →
    ∀ (rows : List (TransformResult MatchedRow)) (db : IdentityDb) (call : ResolveCall),
      call.batchIndex = core.buildBatchIndex rows →
      ∀ hit ∈ ((core.withTopology runtime).resolve db call).hits,
        LinkSound core dataset rows db hit

theorem answersSound_of_home {rules : List LinkFieldRule} {dataset : String}
    (h : PointHome rules dataset) : AnswersSound rules dataset := by
  intro core runtime hrules rows db call hindex hit hhit
  obtain ⟨hrule,hmem⟩ := resolve_hitsFrom core runtime db call hit hhit
  rw [hindex] at hmem
  have hhome := h hit.rule (hrules ▸ hrule)
  rw [← hrules] at hhome
  exact linkSound_of_home hhome hmem

/-- A link is answered from the dataset and the identifier field of its rule, over every batch
and identity index, if and only if all rules point to the planned dataset and have the
identifier field of the last one. -/
theorem answers_sound_iff (rules : List LinkFieldRule) (dataset : String)
    (hkeys : ∀ rule ∈ rules, rule.resolveKeys ≠ [])
    (hfields : (rules.map LinkFieldRule.field).Nodup) :
    AnswersSound rules dataset ↔ PointHome rules dataset := by
  refine ⟨?_,answersSound_of_home⟩
  intro hsound rule hrule
  obtain ⟨key,keys,hrulekeys⟩ := List.exists_cons_of_ne_nil (hkeys rule hrule)
  obtain ⟨before,after,hsplit⟩ := List.append_of_mem hrule
  rw [hsplit, List.map_append, List.map_cons, List.nodup_append] at hfields
  obtain ⟨_,hafter,hbefore⟩ := hfields
  have hhit := stray_hit IdentityDb.empty hsplit hrulekeys
    (fun r hr => hbefore r.field (List.mem_map_of_mem hr) rule.field List.mem_cons_self)
    (fun r hr heq => (List.nodup_cons.mp hafter).1 (heq ▸ List.mem_map_of_mem hr))
  have hlink := hsound (plainCore rules) none rfl
    [arriving (strayRow key.name (plainCore rules).batchIdField)] IdentityDb.empty _ rfl _ hhit
  have hname : key.name ∈ (plainCore rules).batchKeyNames := by
    simp [batchKeyNames, collectBatchKeys, plainCore, hsplit, hrulekeys]
  have hfull : bucket ((plainCore rules).buildBatchIndex
      [arriving (strayRow key.name (plainCore rules).batchIdField)])
      (formatIdentityKey key.name "v") ≠ [] := by
    apply List.ne_nil_of_mem (a := "x")
    exact (mem_buildBatchIndex _).mpr
      ⟨_,List.mem_singleton_self _,_,rfl,stray_supplies (plainCore rules) hname⟩
  unfold LinkSound at hlink
  rw [if_neg hfull] at hlink
  obtain ⟨hdataset,m,hm,row,hrow,_,hextract⟩ := hlink
  rw [List.mem_singleton.mp hm] at hrow
  cases hrow
  refine ⟨hdataset,?_⟩
  rw [strayRow_extract] at hextract
  by_contra hne
  have hfield : rule.targetIdField ≠ (plainCore rules).batchIdField := hne
  simp [hfield] at hextract

theorem answers_sound_iff_manager :
    AnswersSound [codeLink "manager" "employees"] "employees" ↔
      PointHome [codeLink "manager" "employees"] "employees" :=
  answers_sound_iff [codeLink "manager" "employees"] "employees" (by decide) (by decide)

/-- An organization with the code of a colleague: the colleague's identifier is taken. -/
theorem colleague_answers_for_organization :
    ¬ ∀ (rules : List LinkFieldRule) (dataset : String),
      (∀ rule ∈ rules, rule.resolveKeys ≠ []) → (rules.map LinkFieldRule.field).Nodup →
        AnswersSound rules dataset := by
  intro h
  have hlink := h [codeLink "unit" "organizations"] "employees" (by decide) (by decide)
    (plainCore [codeLink "unit" "organizations"]) none rfl [arriving managerRow]
    IdentityDb.empty
    { callOn (newRow 3 "line:3" "E2" (.str "emp-2") [("unit",.str "E1")]) with
      batchIndex := (plainCore [codeLink "unit" "organizations"]).buildBatchIndex
        [arriving managerRow] }
    rfl ⟨codeLink "unit" "organizations","code:E1","emp-1"⟩ (by decide)
  rw [LinkSound, if_neg (by decide)] at hlink
  exact absurd hlink.1 (by decide)

end ResolveCore
end NexusEtl
