import NexusEtl.Dsl
import NexusEtl.MatchModels
import NexusEtl.IdentitySync
import NexusEtl.PendingCodec

/-!
# The resolver

A matched row becomes a resolved row: its link fields are looked up in the
batch index and the identity index, links without an answer are stored as
pending, the target identifier and the operation are decided, and a row that
resolved without a pending link closes the links it left earlier. Writes stay
when a later part of the row raises, so every outcome carries the table. The
trace of an outcome names the links that were answered and the requests made.
-/

set_option autoImplicit false

namespace NexusEtl
open NexusEtl.Library

structure LinkKeyRule where
  name : String
  field : String
  deriving DecidableEq, Repr

inductive LinkCoerce
  | int | str
  deriving DecidableEq, Repr

inductive OnUnresolved
  | pending | hardError
  deriving DecidableEq, Repr

structure LinkFieldRule where
  field : String
  targetDataset : String
  resolveKeys : List LinkKeyRule
  dedupRules : List (List String) := []
  targetIdField : String := "_id"
  coerce : Option LinkCoerce := none
  onUnresolved : OnUnresolved := .pending
  deriving DecidableEq, Repr

inductive TopologyAction
  | skip | pending | hardError
  deriving DecidableEq, Repr

structure ResolveTopologyLinkPolicy where
  enabled : Bool
  field : String
  onMissingTopology : TopologyAction := .pending
  onAmbiguousTopology : TopologyAction := .pending
  deriving DecidableEq, Repr

structure TopologyLinkResolutionResult where
  resolvedTargetId : Value
  isAmbiguous : Bool
  mode : TopologyMatchMode
  reason : Option String
  deriving DecidableEq, Repr

/-- The locator builder and the link service; without both the policy has no effect. -/
structure TopologyLinkServices where
  build : SourceRecord → Except PyException (Option (List String))
  resolveLink : String → List String → List String →
    Except PyException TopologyLinkResolutionResult

structure ResolverSettings where
  pendingTtlSeconds : Int
  pendingMaxAttempts : Int
  pendingAllowPartial : Bool
  deriving DecidableEq, Repr

structure SecretLifecyclePolicy where
  mode : String
  deleteOnSuccess : Bool
  ttlSeconds : Option Int
  deriving DecidableEq, Repr

structure ResolveRules where
  buildSourceRef : Option (Identity → Except PyException Fields) := none
  diffPolicy : Option (Option Fields → Fields → Except PyException Fields) := none
  secretFieldsForOp :
    Option (ResolveOp → Fields → Option Fields → Except PyException (List String)) := none
  secretLifecycle : Option SecretLifecyclePolicy := none
  mergePolicy : Option (Option Fields → Fields → Except PyException (Option Fields)) := none

structure ResolveCore where
  resolveRules : ResolveRules
  linkRules : List LinkFieldRule
  hasGateway : Bool
  settings : ResolverSettings
  catalog : ErrorCatalog
  sinkSpec : Option SinkSpec
  topologyLinkPolicy : Option ResolveTopologyLinkPolicy
  topologyServices : Option TopologyLinkServices
  hash : Fields → String

abbrev BatchIndex := Dict String (List String)

/-- The time of the statements of a row and the expiry of links that it stores. -/
structure Clock where
  now : String
  expiresAt : String
  deriving DecidableEq, Repr

structure ResolveCall where
  matched : MatchedRow
  sourceRecord : SourceRecord
  targetIdMap : Dict String String
  metadata : Fields
  batchIndex : BatchIndex
  clock : Clock
  deriving DecidableEq, Repr

def ResolveCall.rowId (call : ResolveCall) : String := call.matched.rowRef.rowId

/-- A link field that was answered: the key that was looked up and the identifier. -/
structure LinkHit where
  rule : LinkFieldRule
  lookupKey : String
  resolvedId : String
  deriving DecidableEq, Repr

structure LinkLookupOutcome where
  resolvedId : Option String
  reason : Option String
  usedLookup : Option String
  candidateIds : List String
  deriving DecidableEq, Repr

inductive DecisionAction
  | legacy | pending | hardError
  deriving DecidableEq, Repr

structure TopologyLinkDecision where
  resolvedId : Option String
  reason : Option String
  action : DecisionAction
  deriving DecidableEq, Repr

/-- `text or fallback`. -/
def textOr (text : Option String) (fallback : String) : String :=
  (text.filter fun s => s ≠ "").getD fallback

def lookupCandidates (batchIndex : BatchIndex) (db : IdentityDb) (dataset lookupKey : String) :
    List String :=
  let batchHits := (Dict.get? batchIndex lookupKey).getD []
  if batchHits = [] then db.findCandidates dataset lookupKey else batchHits.eraseDups

def extractLinkKeyOverrides (metadata : Fields) (field : String) : Dict String String :=
  match Fields.read metadata "link_keys" with
  | .dict linkKeys => match Fields.read linkKeys field with
    | .dict overrides => overrides.filterMap fun kv =>
        if kv.2.isNull || Text.strip kv.2.pyStr == "" then none
        else some (kv.1,Text.strip kv.2.pyStr)
    | _ => []
  | _ => []

def keyText : Value → Option String
  | .null => none
  | .bool b => some (Value.pyStr (.bool b))
  | .int n => some (Value.pyStr (.int n))
  | v => if Text.strip v.pyStr = "" then none else some (Text.strip v.pyStr)

def extractKeyValues (desired : Fields) (keys : List LinkKeyRule)
    (overrides : Dict String String) : Dict String String :=
  keys.foldl (fun values key =>
    let value := match Dict.get? overrides key.name with
      | some text => .str text
      | none => Fields.read desired key.field
    match keyText value with
    | some text => Dict.set values key.name text
    | none => values) []

/-- The text under which a dedup key is looked up, when there is one. -/
def dedupLookup (keyValues : Dict String String) (desired : Fields) (name : String) :
    Option String :=
  match (Dict.get? keyValues name).filter (· ≠ "") with
  | some text => some text
  | none =>
    let raw := Fields.read desired name
    if raw.isNull || Text.strip raw.pyStr == "" then none else some (Text.strip raw.pyStr)

/-- The candidates that every key of one dedup rule also finds. -/
def narrow (lookup : String → List String) (value : String → Option String) :
    List String → List String → List String
  | [], found => found
  | name::names, found => match value name with
    | none => []
    | some text =>
      narrow lookup value names (found.filter (lookup (formatIdentityKey name text)).contains)

def applyDedup (lookup : String → List String) (value : String → Option String) :
    List (List String) → List String → List String
  | [], remaining => remaining
  | names::rules, remaining =>
    if remaining = [] then []
    else
      let narrowed := narrow lookup value names remaining
      let kept := if narrowed = [] then remaining else narrowed
      if kept.length = 1 then kept else applyDedup lookup value rules kept

def applyDedupRules (rule : LinkFieldRule) (keyValues : Dict String String) (desired : Fields)
    (db : IdentityDb) (batchIndex : BatchIndex) (candidates : List String) : List String :=
  if rule.dedupRules = [] then candidates
  else applyDedup (lookupCandidates batchIndex db rule.targetDataset)
    (dedupLookup keyValues desired) rule.dedupRules candidates.eraseDups

def resolveWithRules (rule : LinkFieldRule) (keyValues : Dict String String) (desired : Fields)
    (db : IdentityDb) (batchIndex : BatchIndex) :
    List LinkKeyRule → Option String → LinkLookupOutcome
  | [], used => ⟨none,some "no candidates found for link",used,[]⟩
  | key::keys, used =>
    match (Dict.get? keyValues key.name).filter (· ≠ "") with
    | none => resolveWithRules rule keyValues desired db batchIndex keys used
    | some value =>
      let lookupKey := formatIdentityKey key.name value
      match lookupCandidates batchIndex db rule.targetDataset lookupKey with
      | [] => resolveWithRules rule keyValues desired db batchIndex keys (some lookupKey)
      | [id] => ⟨some id,none,some lookupKey,[id]⟩
      | candidates =>
        match applyDedupRules rule keyValues desired db batchIndex candidates with
        | [id] => ⟨some id,none,some lookupKey,[id]⟩
        | narrowed =>
          ⟨none,some "multiple candidates found for link",some lookupKey,narrowed⟩

def coerceResolved (resolvedId : String) (rule : LinkFieldRule) : Value :=
  match rule.coerce with
  | some .int => match Text.parseInt resolvedId with
    | some n => .int n
    | none => .str resolvedId
  | _ => .str resolvedId

def shouldSkipInt (rule : LinkFieldRule) : Bool :=
  rule.resolveKeys.all fun key => key.name ≠ rule.targetIdField

def isInt : Value → Bool
  | .bool _ => true
  | .int _ => true
  | _ => false

def collectChangedFields (before after : Fields) : List String :=
  (Dict.keys before ++ Dict.keys after).dedup.filter fun key =>
    !Value.pyEq (Fields.read before key) (Fields.read after key)

def collectBatchKeys (linkRules : List LinkFieldRule) : List String × String :=
  ((linkRules.flatMap fun rule =>
      rule.resolveKeys.map LinkKeyRule.name ++ rule.dedupRules.flatten).dedup,
    (linkRules.getLast?.map LinkFieldRule.targetIdField).getD "_id")

/-- The identifier that a matched row has in its existing record. -/
def existingId (row : MatchedRow) (idField : String) : Value :=
  if resolveDecisionStatus row = .matched then Fields.read (row.existing.getD []) idField
  else .null

def extractResolvedId (row : MatchedRow) (idField : String) : Option String :=
  if !(existingId row idField).isNull then some (Text.strip (existingId row idField).pyStr)
  else if !(Fields.read row.desiredState idField).isNull then
    some (Text.strip (Fields.read row.desiredState idField).pyStr)
  else if idField = "_id" ∧ row.targetId.truthy then some (Text.strip row.targetId.pyStr)
  else none

def extractIdentityValue (row : MatchedRow) (keyName : String) : Option String :=
  match (Dict.get? row.identity.values keyName).filter (· ≠ "") with
  | some value => some (Text.strip value)
  | none =>
    let raw := Fields.read row.desiredState keyName
    if raw.isNull then none else some (Text.strip raw.pyStr)

/-- The keys under which one row is entered in the batch index. -/
def batchKeys (keyNames : List String) (row : MatchedRow) : List String :=
  keyNames.filterMap fun name => (extractIdentityValue row name).map (formatIdentityKey name)

def appendBucket (id : String) (index : BatchIndex) (lookupKey : String) : BatchIndex :=
  Dict.set index lookupKey ((Dict.get? index lookupKey).getD [] ++ [id])

def indexRow (keyNames : List String) (idField : String) (index : BatchIndex)
    (item : TransformResult MatchedRow) : BatchIndex :=
  match item.row with
  | none => index
  | some row => match (extractResolvedId row idField).filter (· ≠ "") with
    | none => index
    | some id => (batchKeys keyNames row).foldl (appendBucket id) index

def defaultDiff (existing : Option Fields) (desired : Fields) : Fields :=
  match existing with
  | none => []
  | some record =>
    if record = [] then []
    else desired.filter fun kv => !Text.hasPrefix "__" kv.1 &&
      !Value.pyEq (Fields.read record kv.1) kv.2

def serializeSecretLifecycle (policy : SecretLifecyclePolicy) : Fields :=
  [("mode",.str policy.mode),("delete_on_success",.bool policy.deleteOnSuccess),
    ("ttl_seconds",PendingCodec.orNull .int policy.ttlSeconds)]

def resolveTargetId (matched : MatchedRow) (targetIdMap : Dict String String) : Value :=
  if resolveDecisionStatus matched = .matched then
    if (existingId matched "_id").isNull then .null else .str (existingId matched "_id").pyStr
  else if matched.targetId.truthy then matched.targetId
  else PendingCodec.orNull .str (Dict.get? targetIdMap matched.identity.primaryValue)

structure LinkState where
  pending : PendingTable
  desired : Fields
  changed : List String
  pendingCreated : Bool
  shouldStop : Bool
  errors : List DiagnosticItem
  warnings : List DiagnosticItem
  hits : List LinkHit
  requests : List PendingRequest

def LinkState.start (pending : PendingTable) (desired : Fields) : LinkState :=
  ⟨pending,desired,[],false,false,[],[],[],[]⟩

/-- How a link rule leaves the loop over the rules. -/
inductive LinkFlow
  | next | stop | raised (exc : PyException)
  deriving DecidableEq, Repr

structure Resolution where
  row : Option ResolvedRow
  errors : List DiagnosticItem
  warnings : List DiagnosticItem
  deriving DecidableEq, Repr

structure ResolveOutcome where
  result : Except PyException Resolution
  pending : PendingTable
  hits : List LinkHit
  requests : List PendingRequest
  closed : Bool

namespace ResolveCore

variable (core : ResolveCore)

def buildBatchIndex (matchedRows : List (TransformResult MatchedRow)) : BatchIndex :=
  let (keyNames,idField) := collectBatchKeys core.linkRules
  matchedRows.foldl (indexRow keyNames idField) []

def resolveError (code : String) (field : Option String) (message : String)
    (matched : MatchedRow) : DiagnosticItem :=
  diagError core.catalog .resolve code field (some message) (some matched.rowRef) none

def buildExpiresAt (clock : Clock) : Option String :=
  if core.settings.pendingTtlSeconds ≤ 0 then none else some clock.expiresAt

def pendingRequest (call : ResolveCall) (rule : LinkFieldRule) (lookupKey : Option String)
    (desired : Fields) : PendingRequest :=
  { dataset := rule.targetDataset
    sourceRowId := call.rowId
    field := rule.field
    lookupKey := lookupKey.getD ""
    expiresAt := core.buildExpiresAt call.clock
    payload := some (PendingCodec.serialize call.matched desired call.metadata) }

def createPendingLink (call : ResolveCall) (rule : LinkFieldRule) (lookupKey reason : Option String)
    (s : LinkState) : LinkState :=
  let req := core.pendingRequest call rule lookupKey s.desired
  let stored := s.pending.request core.settings.pendingMaxAttempts req call.clock.now
  let s := { s with
    pending := stored.1, pendingCreated := true, requests := s.requests ++ [req] }
  if stored.2 then
    { s with
      shouldStop := true
      errors := s.errors ++ [core.resolveError "RESOLVE_MAX_ATTEMPTS" (some rule.field)
        "pending max attempts reached" call.matched] }
  else
    { s with
      shouldStop := !core.settings.pendingAllowPartial
      warnings := s.warnings ++ [diagWarning core.catalog .resolve "RESOLVE_PENDING"
        (some rule.field) (some (textOr reason "link is pending"))
        (some call.matched.rowRef) none none] }

def isTopologyLinkEnabled (rule : LinkFieldRule) : Bool :=
  match core.topologyLinkPolicy with
  | none => false
  | some policy => policy.enabled && policy.field == rule.field

def topologyDetails (candidateIds : List String) (locator : Option (List String))
    (result : Option TopologyLinkResolutionResult) : Value :=
  .dict ([("source_segments",.list ((locator.getD []).map .str)),
      ("candidate_ids",.list (candidateIds.map .str))] ++
    match result with
    | none => []
    | some r => [("topology_reason",PendingCodec.orNull .str r.reason),
        ("topology_mode",.str r.mode.value)])

def applyTopologyPolicy (candidateIds : List String) (ambiguous : Bool) (fallback : String)
    (locator : Option (List String)) (result : Option TopologyLinkResolutionResult) :
    TopologyLinkDecision :=
  match core.topologyLinkPolicy with
  | none => ⟨none,some fallback,.legacy⟩
  | some policy =>
    match if ambiguous then policy.onAmbiguousTopology else policy.onMissingTopology with
    | .skip => ⟨none,some "multiple candidates found for link",.legacy⟩
    | .pending => ⟨none,some fallback,.pending⟩
    | .hardError => ⟨none,some (fallback ++ "; details=" ++
        (topologyDetails candidateIds locator result).pyStr),.hardError⟩

def resolveWithTopology (call : ResolveCall) (rule : LinkFieldRule)
    (candidateIds : List String) : Except PyException (Option TopologyLinkDecision) :=
  match core.topologyServices with
  | none => .ok none
  | some services => do
    match ← services.build call.sourceRecord with
    | none => return some (core.applyTopologyPolicy candidateIds false
        "topology source locator is empty" none none)
    | some locator =>
      let result ← services.resolveLink rule.field locator candidateIds
      if !result.resolvedTargetId.isNull then
        return some ⟨some result.resolvedTargetId.pyStr,none,.legacy⟩
      else if result.isAmbiguous then
        return some (core.applyTopologyPolicy candidateIds true
          (textOr result.reason "topology link is ambiguous") (some locator) (some result))
      else
        return some (core.applyTopologyPolicy candidateIds false
          (textOr result.reason "topology link confirmation is missing") (some locator)
          (some result))

/-- The decision on a lookup with several candidates, when the policy covers the rule. -/
def topologyDecision (call : ResolveCall) (rule : LinkFieldRule) (outcome : LinkLookupOutcome) :
    Except PyException (Option TopologyLinkDecision) :=
  if outcome.resolvedId.isNone && 1 < outcome.candidateIds.length &&
      core.isTopologyLinkEnabled rule then
    core.resolveWithTopology call rule outcome.candidateIds
  else .ok none

def linkConflict (call : ResolveCall) (rule : LinkFieldRule) (reason : Option String)
    (s : LinkState) : LinkState :=
  { s with
    shouldStop := true
    errors := s.errors ++ [core.resolveError "RESOLVE_CONFLICT" (some rule.field)
      (textOr reason "link is unresolved") call.matched] }

def setLink (rule : LinkFieldRule) (lookupKey : Option String) (resolvedId : String)
    (s : LinkState) : LinkState :=
  let value := coerceResolved resolvedId rule
  let s := { s with hits := s.hits ++ [⟨rule,lookupKey.getD "",resolvedId⟩] }
  if Value.pyEq (Fields.read s.desired rule.field) value then s
  else { s with
    desired := Dict.set s.desired rule.field value, changed := s.changed ++ [rule.field] }

/-- What is done with a link once the lookup and the topology have had their say. -/
def settleLink (call : ResolveCall) (rule : LinkFieldRule) (lookupKey resolvedId reason :
    Option String) (s : LinkState) : LinkFlow × LinkState :=
  match resolvedId with
  | some id => (.next,setLink rule lookupKey id s)
  | none => match rule.onUnresolved with
    | .hardError => (.stop,core.linkConflict call rule reason s)
    | .pending => (.next,core.createPendingLink call rule lookupKey reason s)

def isSkipped (rule : LinkFieldRule) (desired : Fields) : Bool :=
  (Fields.read desired rule.field).isNull ||
    (isInt (Fields.read desired rule.field) && shouldSkipInt rule)

/-- One round of the loop of `_resolve_links`. -/
def resolveLink (db : IdentityDb) (call : ResolveCall) (rule : LinkFieldRule) (s : LinkState) :
    LinkFlow × LinkState :=
  if isSkipped rule s.desired then (.next,s)
  else
    let keyValues := extractKeyValues s.desired rule.resolveKeys
      (extractLinkKeyOverrides call.metadata rule.field)
    let outcome := resolveWithRules rule keyValues s.desired db call.batchIndex rule.resolveKeys
      none
    match core.topologyDecision call rule outcome with
    | .error exc => (.raised exc,s)
    | .ok none =>
      core.settleLink call rule outcome.usedLookup outcome.resolvedId outcome.reason s
    | .ok (some decision) =>
      match decision.action with
      | .legacy =>
        core.settleLink call rule outcome.usedLookup decision.resolvedId decision.reason s
      | .hardError => (.stop,core.linkConflict call rule decision.reason s)
      | .pending =>
        let created := core.createPendingLink call rule outcome.usedLookup decision.reason s
        (if created.shouldStop then .stop else .next,created)

def resolveLinkLoop (db : IdentityDb) (call : ResolveCall) :
    List LinkFieldRule → LinkState → Option PyException × LinkState
  | [], s => (none,s)
  | rule::rules, s =>
    match core.resolveLink db call rule s with
    | (.next,s) => resolveLinkLoop db call rules s
    | (.stop,s) => (none,s)
    | (.raised exc,s) => (some exc,s)

def resolveLinks (db : IdentityDb) (call : ResolveCall) (s : LinkState) :
    Option PyException × LinkState :=
  if core.linkRules = [] then (none,s)
  else if !core.hasGateway then
    (none,{ s with
      shouldStop := true
      errors := s.errors ++ [core.resolveError "RESOLVE_CONFIG_MISSING" none
        "cache gateway is not configured" call.matched] })
  else core.resolveLinkLoop db call core.linkRules s

/-- The desired state after the merge policy, with the fields that it changed. -/
def applyMergePolicy (matched : MatchedRow) : Except PyException (Fields × List String) :=
  match core.resolveRules.mergePolicy with
  | none => .ok (matched.desiredState,[])
  | some policy => do
    match ← policy matched.existing matched.desiredState with
    | none => return (matched.desiredState,[])
    | some merged =>
      let desired := Dict.update merged matched.desiredState
      return (desired,collectChangedFields matched.desiredState desired)

def sinkIssues (desired : Fields) (mutated : List String) : List DslIssue :=
  match core.sinkSpec with
  | none => []
  | some spec => validateSinkFields desired spec (sortTexts mutated.dedup) true

def canSkipWithFingerprint (matched : MatchedRow) (desired : Fields) : Bool :=
  match matched.existing with
  | none => false
  | some existing =>
    resolveDecisionStatus matched == .matched && matched.fingerprintFields ≠ [] &&
      core.resolveRules.mergePolicy.isNone && core.resolveRules.diffPolicy.isNone &&
      buildFingerprintForKeys core.hash desired matched.fingerprintFields ==
        buildFingerprintForKeys core.hash existing matched.fingerprintFields

def diffOf (matched : MatchedRow) (desired : Fields) : Except PyException Fields :=
  match core.resolveRules.diffPolicy with
  | some diff => diff matched.existing desired
  | none => .ok (defaultDiff matched.existing desired)

def decideOp (matched : MatchedRow) (desired : Fields) :
    Except PyException (ResolveOp × Fields) :=
  if resolveDecisionStatus matched = .notFound then .ok (.create,[])
  else if core.canSkipWithFingerprint matched desired then .ok (.skip,[])
  else do
    let changes ← core.diffOf matched desired
    return if changes = [] then (.skip,[]) else (.update,changes)

def sourceRefOf (identity : Identity) : Except PyException (Option Fields) :=
  match core.resolveRules.buildSourceRef with
  | some build => (build identity).map some
  | none => .ok none

def secretFieldsOf (op : ResolveOp) (matched : MatchedRow) (desired : Fields) :
    Except PyException (List String) :=
  match core.resolveRules.secretFieldsForOp with
  | some policy => policy op desired matched.existing
  | none => .ok []

def buildResolvedRow (matched : MatchedRow) (desired : Fields) (targetId : Value) :
    Except PyException ResolvedRow := do
  let decided ← core.decideOp matched desired
  let sourceRef ← core.sourceRefOf matched.identity
  let secretFields ← core.secretFieldsOf decided.1 matched desired
  return { rowRef := matched.rowRef, identity := matched.identity, op := decided.1
           desiredState := desired, existing := matched.existing, changes := decided.2
           targetId := targetId, sourceRef := sourceRef, secretFields := secretFields
           secretLifecycle := core.resolveRules.secretLifecycle.map serializeSecretLifecycle }

def outcomeOf (s : LinkState) (result : Except PyException Resolution) : ResolveOutcome :=
  ⟨result,s.pending,s.hits,s.requests,false⟩

/-- The part of `resolve` after the links. -/
def finish (call : ResolveCall) (mutated : List String) (s : LinkState) : ResolveOutcome :=
  if s.shouldStop then outcomeOf s (.ok ⟨none,s.errors,s.warnings⟩)
  else
    let issues := core.sinkIssues s.desired (mutated ++ s.changed)
    if issues ≠ [] then
      let diagnosed := appendDslIssues .resolve core.catalog (some call.matched.rowRef) .error
        ⟨s.errors,s.warnings⟩ issues
      outcomeOf s (.ok ⟨none,diagnosed.errors,diagnosed.warnings⟩)
    else
      let targetId := resolveTargetId call.matched call.targetIdMap
      if !targetId.truthy then
        outcomeOf s (.ok ⟨none,s.errors ++ [core.resolveError "RESOLVE_TARGET_ID_MISSING"
          (some "target_id") "target_id is missing for resolved row" call.matched],s.warnings⟩)
      else match core.buildResolvedRow call.matched s.desired targetId with
        | .error exc => outcomeOf s (.error exc)
        | .ok row =>
          let outcome := outcomeOf s (.ok ⟨some row,s.errors,s.warnings⟩)
          if !s.pendingCreated && core.hasGateway then
            { outcome with
              pending := s.pending.markResolvedForSource call.rowId call.clock.now
              closed := true }
          else outcome

def refused (db : IdentityDb) (result : Except PyException Resolution) : ResolveOutcome :=
  ⟨result,db.pending,[],[],false⟩

/-- The part of `resolve` after the check of the match decision. -/
def resolveAccepted (db : IdentityDb) (call : ResolveCall) : ResolveOutcome :=
  match core.applyMergePolicy call.matched with
  | .error exc => refused db (.error exc)
  | .ok (desired,mutated) =>
    match core.resolveLinks db call (LinkState.start db.pending desired) with
    | (some exc,s) => outcomeOf s (.error exc)
    | (none,s) => core.finish call mutated s

def resolve (db : IdentityDb) (call : ResolveCall) : ResolveOutcome :=
  match resolveDecisionStatus call.matched with
  | .ambiguous => refused db (.ok ⟨none,[core.resolveError "RESOLVE_AMBIGUOUS"
      (some call.matched.identity.primary) "ambiguous match result" call.matched],[]⟩)
  | .conflictSource => refused db (.ok ⟨none,[core.resolveError "RESOLVE_CONFLICT"
      (some call.matched.identity.primary) "conflict during match stage" call.matched],[]⟩)
  | .matched => core.resolveAccepted db call
  | .notFound => core.resolveAccepted db call

end ResolveCore
end NexusEtl
