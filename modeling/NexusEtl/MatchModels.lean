import NexusEtl.TransformResult
import Mathlib.Data.List.Sort

/-!
# Match decisions and matched rows

The typed output of the matcher and of the resolver. The hash of a fingerprint
is a parameter: it is applied to the dictionary of the fields that take part.
-/

set_option autoImplicit false

namespace NexusEtl
open NexusEtl.Library

inductive ResolveOp
  | create | update | skip | conflict
  deriving DecidableEq, Repr

inductive MatchDecisionStatus
  | matched | notFound | ambiguous | conflictSource
  deriving DecidableEq, Repr

def MatchDecisionStatus.value : MatchDecisionStatus → String
  | .matched => "matched" | .notFound => "not_found" | .ambiguous => "ambiguous"
  | .conflictSource => "conflict_source"

inductive TopologyMatchMode
  | exactCanonicalPath | exactLeafParentChain | exactLeafRootDepth | ambiguous | noMatch
  deriving DecidableEq, Repr

def TopologyMatchMode.value : TopologyMatchMode → String
  | .exactCanonicalPath => "exact_canonical_path"
  | .exactLeafParentChain => "exact_leaf_parent_chain"
  | .exactLeafRootDepth => "exact_leaf_root_depth"
  | .ambiguous => "ambiguous"
  | .noMatch => "no_match"

structure MatchCandidate where
  targetId : Option String
  identity : Option String
  score : Option Rat
  matchMode : String
  evidence : Option Fields
  deriving DecidableEq, Repr

structure MatchDecision where
  status : MatchDecisionStatus
  reasonCode : String
  message : Option String
  selected : Option MatchCandidate
  candidates : List MatchCandidate
  score : Option Rat
  topologyMatchMode : Option TopologyMatchMode
  topologyReason : Option String
  topologyEvidence : Fields
  metadata : Fields
  deriving DecidableEq, Repr

structure MatchedRow where
  rowRef : RowRef
  identity : Identity
  desiredState : Fields
  existing : Option Fields
  fingerprint : String
  fingerprintFields : List String
  matchDecision : MatchDecision
  sourceLinks : Dict String Identity
  targetId : Value
  deriving DecidableEq, Repr

def resolveDecisionStatus (row : MatchedRow) : MatchDecisionStatus := row.matchDecision.status

structure ResolvedRow where
  rowRef : RowRef
  identity : Identity
  op : ResolveOp
  desiredState : Fields
  existing : Option Fields
  changes : Fields
  targetId : Value
  sourceRef : Option Fields
  secretFields : List String
  secretLifecycle : Option Fields
  deriving DecidableEq, Repr

def sortTexts (names : List String) : List String := names.insertionSort (· ≤ ·)

def buildFingerprint (hash : Fields → String) (desired : Fields) (ignored : List String) :
    String × List String :=
  let payload := desired.filter fun kv => !ignored.contains kv.1
  (hash payload,sortTexts (Dict.keys payload))

def buildFingerprintForKeys (hash : Fields → String) (payload : Fields) (keys : List String) :
    String :=
  hash (keys.map fun k => (k,Fields.read payload k))

end NexusEtl
