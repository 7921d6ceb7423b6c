import NexusEtl.MatchModels
import NexusEtl.Dsl
import Mathlib.Algebra.Order.Ring.Unbundled.Rat
import Mathlib.Algebra.Ring.Rat

/-!
# The matcher

Identity rules look a row up in the cache in order; a row without a hit may be
scored against blocking candidates, and a topology service may refine the
result. The compiled rules, the cache and the topology services are fields of
the core. Scores are exact rationals; case folding and text similarity are
parameters of the fuzzy rules.
-/

set_option autoImplicit false

namespace NexusEtl
open NexusEtl.Library

structure MatchContext where
  lineNo : Int
  matchKey : String
  matchKeyComplete : Bool
  rowRef : RowRef
  secretCandidates : Dict String String
  secretFields : List String
  errors : List DiagnosticItem
  warnings : List DiagnosticItem
  deriving DecidableEq, Repr

structure SourceDedupRules where
  enabled : Bool := true
  onDuplicate : OnError := .warn
  onConflict : OnError := .error
  deriving DecidableEq, Repr

structure IdentityRule where
  name : String
  buildIdentity : Fields → MatchContext → Except PyException Identity

inductive Comparator
  | exact | casefold | similarity
  deriving DecidableEq, Repr

structure FuzzyScoringRules where
  enabled : Bool := false
  blockingKeys : List String := []
  comparators : Dict String Comparator := []
  weights : Dict String Rat := []
  acceptThreshold : Rat := 9/10
  reviewThreshold : Rat := 7/10
  tieDelta : Rat := 1/20
  maxCandidates : Int := 50
  topK : Int := 3
  scoreRound : Int := 4
  casefold : String → String := Text.lower
  similarity : String → String → Rat := fun a b => if a = b then 1 else 0

inductive ApplyOn
  | ambiguousOnly | allCandidates
  deriving DecidableEq, Repr

inductive MissingTopology
  | skip | hardError
  deriving DecidableEq, Repr

structure TopologyMatchPolicy where
  enabled : Bool
  applyOn : ApplyOn
  onMissingTopology : MissingTopology
  deriving DecidableEq, Repr

structure TopologyMatchResult where
  matchedTargetId : Option String
  isAmbiguous : Bool
  mode : TopologyMatchMode
  reason : Option String
  evidence : Fields
  deriving DecidableEq, Repr

/-- The topology services of a run: a locator for a record and its comparison. -/
structure TopologyMatchServices where
  targetNodeIdField : String
  build : SourceRecord → Except PyException (Option (List String))
  compare : List String → List String → Except PyException TopologyMatchResult

structure MatchingRules where
  identityRules : List IdentityRule
  ignoredFields : List String := []
  buildLinks : Option (Fields → MatchContext → Except PyException (Dict String Identity)) := none
  sourceDedup : SourceDedupRules := {}
  fuzzy : FuzzyScoringRules := {}
  topology : Option TopologyMatchPolicy := none

structure MatchCore where
  dataset : String
  find : String → Fields → Bool → Except PyException (List Fields)
  matchingRules : MatchingRules
  buildDesiredState : Fields → MatchContext → Except PyException Fields
  hash : Fields → String
  includeDeleted : Bool
  catalog : ErrorCatalog
  topologyServices : Option TopologyMatchServices

/-- `value or None`: an empty text counts as missing. -/
def textOrNone (s : String) : Option String := if s = "" then none else some s

def sourceSecretFields (source : TransformResult Fields) : List String :=
  let fromMeta := match Fields.read source.metadata "secret_fields" with
    | .list items => (items.filter Value.truthy).map Value.pyStr
    | _ => []
  if fromMeta = [] then Dict.keys source.secretCandidates else fromMeta

def buildMatchContext (source : TransformResult Fields) : MatchContext :=
  let key := source.matchKey.getD ""
  let ref := source.rowRef.getD ⟨some source.record.lineNo,source.record.recordId,
    some "match_key",textOrNone key⟩
  { lineNo := source.record.lineNo
    matchKey := key
    matchKeyComplete := source.matchKey.isSome
    rowRef := if ref.identityPrimary.isNone then
        { ref with identityPrimary := some "match_key", identityValue := textOrNone key }
      else ref
    secretCandidates := source.secretCandidates
    secretFields := sourceSecretFields source
    errors := source.errors
    warnings := source.warnings }

def ensureRowRef (ctx : MatchContext) (identity : Identity) : RowRef :=
  { ctx.rowRef with
    identityPrimary := some identity.primary
    identityValue := some identity.primaryValue }

/-- `candidate.get("_id") or candidate.get("target_id")`. -/
def candidateId (candidate : Fields) : Value :=
  if (Fields.read candidate "_id").truthy then Fields.read candidate "_id"
  else Fields.read candidate "target_id"

def candidateDedupKey (candidate : Fields) : String :=
  if (candidateId candidate).isNull then
    Text.join "|" ((sortTexts (Dict.keys candidate)).map fun k =>
      k ++ "=" ++ (Fields.read candidate k).pyStr)
  else "id:" ++ (candidateId candidate).pyStr

def idText (v : Value) : Option String := if v.isNull then none else some v.pyStr

structure TopCandidate where
  targetId : Option String
  score : Rat
  deriving DecidableEq, Repr

def buildTopCandidates (ranked : List (Fields × Rat)) (topK : Int) : List TopCandidate :=
  (ranked.take topK.toNat).map fun c => ⟨idText (candidateId c.1),c.2⟩

def toMatchCandidates (top : List TopCandidate) (mode : String) : List MatchCandidate :=
  top.map fun c => ⟨c.targetId,none,some c.score,mode,none⟩

def buildSelectedCandidate (existing : Option Fields) (identity : Identity) (score : Option Rat)
    (mode : String) : Option MatchCandidate :=
  existing.map fun record =>
    { targetId := idText (candidateId record)
      identity := textOrNone identity.primaryValue
      score := score
      matchMode := mode
      evidence := some [("identity_primary",.str identity.primary)] }

/-- `_read_value`: the desired state before the identity before the row. -/
def readMatchValue (field : String) (row desired : Fields) (identity : Identity) : Value :=
  if Dict.contains desired field then Fields.read desired field
  else if field = identity.primary then .str identity.primaryValue
  else Fields.read row field

namespace FuzzyScoringRules

def normalizeForCompare (fuzzy : FuzzyScoringRules) (s : String) : String :=
  fuzzy.casefold (Text.join " " (Text.words s))

def fieldScore (fuzzy : FuzzyScoringRules) (source candidate : Value) : Comparator → Rat
  | mode => if source.isNull || candidate.isNull then 0 else
    let left := source.pyStr
    let right := candidate.pyStr
    match mode with
    | .exact => if left = right then 1 else 0
    | .casefold =>
      if fuzzy.normalizeForCompare left = fuzzy.normalizeForCompare right then 1 else 0
    | .similarity =>
      fuzzy.similarity (fuzzy.normalizeForCompare left) (fuzzy.normalizeForCompare right)

def scoredFields (fuzzy : FuzzyScoringRules) : List String :=
  (Dict.keys fuzzy.comparators ++ Dict.keys fuzzy.weights).dedup

/-- Rounding to the nearest integer, ties to the even one. -/
def roundHalfEven (q : Rat) : Int :=
  let low := q.floor
  let rest := q - low
  if rest < 1/2 then low
  else if 1/2 < rest then low + 1
  else if low % 2 = 0 then low else low + 1

def roundTo (digits : Int) (q : Rat) : Rat :=
  (roundHalfEven (q * 10^digits.toNat) : Rat) / 10^digits.toNat

def scoreCandidate (fuzzy : FuzzyScoringRules) (source : String → Value) (candidate : Fields) :
    Rat :=
  let weighted := fuzzy.scoredFields.map fun f =>
    let weight := max 0 ((Dict.get? fuzzy.weights f).getD 1)
    (weight * fuzzy.fieldScore (source f) (Fields.read candidate f)
      ((Dict.get? fuzzy.comparators f).getD .exact),weight)
  let total := (weighted.map Prod.snd).sum
  if total ≤ 0 then 0
  else roundTo (max 0 fuzzy.scoreRound) ((weighted.map Prod.fst).sum / total)

def rankCandidates (fuzzy : FuzzyScoringRules) (source : String → Value)
    (candidates : List Fields) : List (Fields × Rat) :=
  (candidates.map fun c => (c,fuzzy.scoreCandidate source c)).insertionSort
    fun a b => b.2 ≤ a.2

def isTie (fuzzy : FuzzyScoringRules) : List (Fields × Rat) → Bool
  | first::second::_ => first.2 - second.2 < max 0 fuzzy.tieDelta
  | _ => false

end FuzzyScoringRules

/-- What a matching step knows about the target of a row. -/
structure MatchState where
  existing : Option Fields
  status : MatchDecisionStatus
  reason : String
  score : Option Rat
  records : List Fields
  scores : Dict String Rat
  top : List TopCandidate
  mode : String
  deriving DecidableEq, Repr

namespace MatchCore

variable (core : MatchCore)

def makeMatchError (code : String) (field : Option String) (message : String)
    (ref : Option RowRef) : DiagnosticItem :=
  diagError core.catalog .matching code field (some message) ref none

/-- The loop of `_match_identity`: the first rule with a value fixes the identity until
a later rule finds a record; two records of one key are a conflict. -/
def matchIdentity (row : Fields) (ctx : MatchContext) :
    List IdentityRule → Option Identity →
      Except PyException (Except DiagnosticItem (Identity × Option Fields))
  | [], none => .ok (.error (core.makeMatchError "MATCH_IDENTITY_MISSING" none
      "identity value is empty" (some ctx.rowRef)))
  | [], some identity => .ok (.ok (identity,none))
  | rule::rules, identity => do
    let candidate ← rule.buildIdentity row ctx
    if candidate.primaryValue = "" then matchIdentity row ctx rules identity
    else
      match ← core.find core.dataset [(candidate.primary,.str candidate.primaryValue)]
          core.includeDeleted with
      | [] => matchIdentity row ctx rules (some (identity.getD candidate))
      | [record] => return .ok (candidate,some record)
      | _ => return .error (core.makeMatchError "MATCH_CONFLICT_TARGET" (some candidate.primary)
          ("multiple existing candidates found" ++
            (if rule.name = "" then "" else " (" ++ rule.name ++ ")")) (some ctx.rowRef))

/-- One pass over the records of a blocking key, up to the limit. -/
def takeCandidates (limit : Nat) (found : List Fields) : List Fields → List Fields
  | [] => found
  | item::items =>
    if limit ≤ found.length then found
    else if (found.map candidateDedupKey).contains (candidateDedupKey item) then
      takeCandidates limit found items
    else takeCandidates limit (found ++ [item]) items

def collectBlockingCandidates (row desired : Fields) (identity : Identity) (limit : Nat) :
    List String → List Fields → Except PyException (List Fields)
  | [], found => .ok found
  | key::keys, found =>
    let value := readMatchValue key row desired identity
    if limit ≤ found.length then .ok found
    else if value.isBlank then collectBlockingCandidates row desired identity limit keys found
    else match core.find core.dataset [(key,value)] core.includeDeleted with
      | .error exc =>
        if exc.name = "ValueError" then
          collectBlockingCandidates row desired identity limit keys found
        else .error exc
      | .ok records => collectBlockingCandidates row desired identity limit keys
          (takeCandidates limit found records)

def fuzzyState (existing : Option Fields) (status : MatchDecisionStatus) (reason : String)
    (score : Option Rat) (ranked : List (Fields × Rat)) (topK : Int) : MatchState :=
  { existing := existing, status := status, reason := reason, score := score
    records := ranked.map Prod.fst
    scores := ranked.foldl (fun d c => Dict.set d (candidateDedupKey c.1) c.2) []
    top := buildTopCandidates ranked (max 1 topK), mode := "fuzzy" }

def matchWithFuzzy (row desired : Fields) (identity : Identity) :
    Except PyException MatchState := do
  let fuzzy := core.matchingRules.fuzzy
  let candidates ← core.collectBlockingCandidates row desired identity
    (max 1 fuzzy.maxCandidates).toNat fuzzy.blockingKeys []
  let source := fun f => readMatchValue f row desired identity
  match fuzzy.rankCandidates source candidates with
  | [] => return fuzzyState none .notFound "fuzzy_no_candidates" none [] fuzzy.topK
  | best::rest =>
    let ranked := best::rest
    let accept := min 1 (max 0 fuzzy.acceptThreshold)
    let review := min accept (max 0 fuzzy.reviewThreshold)
    let result :=
      if fuzzy.isTie ranked then (none,MatchDecisionStatus.ambiguous,"fuzzy_tie")
      else if accept ≤ best.2 then (some best.1,.matched,"fuzzy_accept")
      else if review ≤ best.2 then (none,.ambiguous,"fuzzy_review")
      else (none,.notFound,"fuzzy_reject")
    return fuzzyState result.1 result.2.1 result.2.2 (some best.2) ranked fuzzy.topK

def exactState (existing : Fields) (topK : Int) : MatchState :=
  { existing := some existing, status := .matched, reason := "identity_exact", score := some 1
    records := [existing], scores := [(candidateDedupKey existing,1)]
    top := buildTopCandidates [(existing,1)] (max 1 topK), mode := "exact" }

def notFoundState : MatchState :=
  { existing := none, status := .notFound, reason := "identity_not_found", score := none
    records := [], scores := [], top := [], mode := "exact" }

def shouldApplyTopology (policy : TopologyMatchPolicy) (state : MatchState) : Bool :=
  match policy.applyOn with
  | .allCandidates => state.records ≠ []
  | .ambiguousOnly => state.status == .ambiguous && 1 < state.records.length

def candidateRowsByTopologyId (field : String) (records : List Fields) : Dict String Fields :=
  records.foldl (fun d c =>
    let id := Fields.read c field
    if id.isBlank || Dict.contains d id.pyStr then d else Dict.set d id.pyStr c) []

def topologyReasonCode : TopologyMatchMode → String
  | .exactCanonicalPath => "topology_exact_canonical_path"
  | .exactLeafParentChain => "topology_exact_leaf_parent_chain"
  | .exactLeafRootDepth => "topology_exact_leaf_root_depth"
  | .ambiguous => "topology_ambiguous"
  | .noMatch => "topology_no_match"

/-- The outcome of a comparison: a matched candidate, an ambiguity, or no change. -/
def refineWith (state : MatchState) (candidates : Dict String Fields)
    (result : TopologyMatchResult) : MatchState :=
  match result.matchedTargetId.bind (Dict.get? candidates) with
  | some record =>
    { state with
      existing := some record, status := .matched, reason := topologyReasonCode result.mode
      score := Dict.get? state.scores (candidateDedupKey record) }
  | none =>
    if result.isAmbiguous then
      { state with status := .ambiguous, reason := "topology_ambiguous" }
    else if result.mode = .noMatch then
      { state with status := .ambiguous, reason := "topology_no_match" }
    else state

def refineWithTopology (enriched : TransformResult Fields) (state : MatchState) :
    Except PyException (Except DiagnosticItem (MatchState × Option TopologyMatchResult)) :=
  match core.matchingRules.topology, core.topologyServices with
  | some policy, some services =>
    if !policy.enabled || state.records = [] || !shouldApplyTopology policy state then
      .ok (.ok (state,none))
    else do
      match ← services.build enriched.record with
      | none =>
        match policy.onMissingTopology with
        | .hardError => return .error (core.makeMatchError "TOPOLOGY_SOURCE_PATH_EMPTY" none
            "topology source path is empty for current row" enriched.rowRef)
        | .skip => return .ok (state,none)
      | some locator =>
        let candidates := candidateRowsByTopologyId services.targetNodeIdField state.records
        if candidates = [] then return .ok (state,none)
        else
          let result ← services.compare locator (Dict.keys candidates)
          return .ok (refineWith state candidates result,some result)
  | _, _ => .ok (.ok (state,none))

def matchDecision (state : MatchState) (identity : Identity)
    (topology : Option TopologyMatchResult) : MatchDecision :=
  let mode := match topology with
    | some result => if result.matchedTargetId.isSome then result.mode.value else state.mode
    | none => state.mode
  let selected := if state.status = .matched then
    buildSelectedCandidate state.existing identity state.score mode else none
  let candidates := toMatchCandidates state.top state.mode
  { status := state.status
    reasonCode := state.reason
    message := none
    selected := selected
    candidates := if candidates = [] then selected.toList else candidates
    score := state.score
    topologyMatchMode := topology.map TopologyMatchResult.mode
    topologyReason := topology.bind TopologyMatchResult.reason
    topologyEvidence := (topology.map TopologyMatchResult.evidence).getD []
    metadata := [("match_mode",.str state.mode),("topology_applied",.bool topology.isSome)] }

/-- The result of a row that the matcher gives up, with its errors. -/
def failed (enriched : TransformResult Fields) (ctx : MatchContext)
    (errs : List DiagnosticItem) : TransformResult MatchedRow :=
  { (enriched.dropRow errs : TransformResult MatchedRow) with rowRef := some ctx.rowRef }

def matchState (row desired : Fields) (identity : Identity) :
    Option Fields → Except PyException MatchState
  | some existing => .ok (exactState existing core.matchingRules.fuzzy.topK)
  | none =>
    if core.matchingRules.fuzzy.enabled then core.matchWithFuzzy row desired identity
    else .ok notFoundState

def buildLinks (row : Fields) (ctx : MatchContext) : Except PyException (Dict String Identity) :=
  match core.matchingRules.buildLinks with
  | some build => build row ctx
  | none => .ok []

def matchedRow (row desired : Fields) (ctx : MatchContext) (identity : Identity)
    (state : MatchState) (topology : Option TopologyMatchResult)
    (links : Dict String Identity) : MatchedRow :=
  let fingerprint := buildFingerprint core.hash desired core.matchingRules.ignoredFields
  { rowRef := ensureRowRef ctx identity
    identity := identity
    desiredState := desired
    existing := state.existing
    fingerprint := fingerprint.1
    fingerprintFields := fingerprint.2
    matchDecision := matchDecision state identity topology
    sourceLinks := links
    targetId := Fields.read row "target_id" }

/-- `MatchCore.match`. -/
def matchRow (enriched : TransformResult Fields) :
    Except PyException (TransformResult MatchedRow) :=
  let ctx := buildMatchContext enriched
  match enriched.row with
  | none => .ok (failed enriched ctx (if enriched.errors = [] then
      [core.makeMatchError "MATCH_IDENTITY_MISSING" none "empty enriched row" (some ctx.rowRef)]
    else []))
  | some row => do
    match ← core.matchIdentity row ctx core.matchingRules.identityRules none with
    | .error item => return failed enriched ctx [item]
    | .ok (identity,existing) =>
      let desired ← core.buildDesiredState row ctx
      let state ← core.matchState row desired identity existing
      match ← core.refineWithTopology enriched state with
      | .error item => return failed enriched ctx [item]
      | .ok (state,topology) =>
        let links ← core.buildLinks row ctx
        let matched := core.matchedRow row desired ctx identity state topology links
        return { enriched with row := some matched, rowRef := some matched.rowRef }

theorem matchIdentity_stage {row : Fields} {ctx : MatchContext} {rules : List IdentityRule}
    {identity : Option Identity} {item : DiagnosticItem}
    (h : core.matchIdentity row ctx rules identity = .ok (.error item)) :
    item.stage = .matching := by
  induction rules generalizing identity with
  | nil =>
    cases identity with
    | none =>
      cases h
      rfl
    | some identity => cases h
  | cons rule rules ih =>
    simp only [matchIdentity, bind, Except.bind, pure, Except.pure] at h
    split at h
    · cases h
    · split at h
      · exact ih h
      · split at h
        · cases h
        · split at h
          · exact ih h
          · cases h
          · cases h
            rfl

theorem refineWithTopology_stage {enriched : TransformResult Fields} {state : MatchState}
    {item : DiagnosticItem} (h : core.refineWithTopology enriched state = .ok (.error item)) :
    item.stage = .matching := by
  unfold refineWithTopology at h
  split at h
  · split at h
    · cases h
    · simp only [bind, Except.bind, pure, Except.pure] at h
      split at h
      · cases h
      · split at h
        · split at h
          · cases h
            rfl
          · cases h
        · split at h
          · cases h
          · split at h <;> cases h
  · cases h

/-- A row that found its identity and its parts. -/
structure Succeeded (core : MatchCore) (enriched : TransformResult Fields)
    (matched : TransformResult MatchedRow) (row : Fields) (identity : Identity)
    (state : MatchState) (topology : Option TopologyMatchResult)
    (links : Dict String Identity) (desired : Fields) : Prop where
  source : enriched.row = some row
  found : ∃ existing first, core.matchIdentity row (buildMatchContext enriched)
      core.matchingRules.identityRules none = .ok (.ok (identity,existing)) ∧
    core.matchState row desired identity existing = .ok first ∧
    core.refineWithTopology enriched first = .ok (.ok (state,topology))
  linked : core.buildLinks row (buildMatchContext enriched) = .ok links
  result : matched =
    let built := core.matchedRow row desired (buildMatchContext enriched) identity state topology
      links
    { enriched with row := some built, rowRef := some built.rowRef }

/-- Everything that matching can do to a row: give it up with errors of its own stage, or
emit it with its parts. -/
theorem matchRow_cases {enriched : TransformResult Fields} {matched : TransformResult MatchedRow}
    (h : core.matchRow enriched = .ok matched) :
    (∃ errs, (∀ e ∈ errs, e.stage = .matching) ∧
        matched = failed enriched (buildMatchContext enriched) errs) ∨
      ∃ row identity state topology links desired,
        core.Succeeded enriched matched row identity state topology links desired := by
  unfold matchRow at h
  dsimp only at h
  split at h
  · refine .inl ⟨_,?_,(Except.ok.inj h).symm⟩
    split <;> simp [makeMatchError]
  · rename_i row hrow
    simp only [bind, Except.bind, pure, Except.pure] at h
    split at h
    · cases h
    · rename_i found hid
      split at h
      · rename_i item
        refine .inl ⟨_,fun e he => ?_,(Except.ok.inj h).symm⟩
        rw [List.mem_singleton.mp he]
        exact core.matchIdentity_stage hid
      · rename_i identity existing
        split at h
        · cases h
        · rename_i desired _
          split at h
          · cases h
          · rename_i first hfirst
            split at h
            · cases h
            · rename_i refined href
              split at h
              · refine .inl ⟨_,fun e he => ?_,(Except.ok.inj h).symm⟩
                rw [List.mem_singleton.mp he]
                exact core.refineWithTopology_stage href
              · rename_i state topology
                split at h
                · cases h
                · rename_i links hlinks
                  cases h
                  exact .inr ⟨row,identity,state,topology,links,desired,hrow,
                    ⟨existing,first,hid,hfirst,href⟩,hlinks,rfl⟩

/-- Matching keeps the errors of the row and appends only errors of its own stage, none to
a row that it emits. -/
theorem matchRow_errors {enriched : TransformResult Fields}
    {matched : TransformResult MatchedRow} (h : core.matchRow enriched = .ok matched) :
    ∃ added, matched.errors = enriched.errors ++ added ∧ (∀ e ∈ added, e.stage = .matching) ∧
      (matched.row.isSome → added = []) := by
  rcases core.matchRow_cases h with ⟨errs,hs,rfl⟩ | ⟨_,_,_,_,_,_,hok⟩
  · exact ⟨errs,rfl,hs,by simp [failed]⟩
  · exact ⟨[],by simp [hok.result],by simp,fun _ => rfl⟩

end MatchCore
end NexusEtl
