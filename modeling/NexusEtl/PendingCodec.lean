import NexusEtl.MatchModels
import NexusEtl.PendingLinks
import Mathlib.Data.List.ReduceOption

/-!
# The pending payload

A row that waits for a link is stored as one JSON document and read back on a
replay. Writing is total; reading checks the shape of every part and skips a
document that fails a check. Metadata reaches the writer as a read-only view,
which JSON cannot write and replaces by its text, so a replayed row has none.
-/

set_option autoImplicit false

namespace NexusEtl
open NexusEtl.Library

namespace PendingCodec

def orNull {α : Type} (write : α → Value) : Option α → Value
  | none => .null
  | some a => write a

def serializeTexts (values : Dict String String) : Value :=
  .dict (values.map fun kv => (kv.1,.str kv.2))

def serializeIdentity (identity : Identity) : Value :=
  .dict [("primary",.str identity.primary),("values",serializeTexts identity.values)]

def serializeSourceLinks (matched : MatchedRow) : Value :=
  .dict (matched.sourceLinks.map fun link => (link.1,serializeIdentity link.2))

def serializeCandidate (candidate : MatchCandidate) : Value :=
  .dict [("target_id",orNull .str candidate.targetId),("identity",orNull .str candidate.identity),
    ("score",orNull .float candidate.score),("match_mode",.str candidate.matchMode),
    ("evidence",orNull .dict candidate.evidence)]

def serializeMatchDecision (decision : MatchDecision) : Value :=
  .dict [("status",.str decision.status.value),("reason_code",.str decision.reasonCode),
    ("message",orNull .str decision.message),("score",orNull .float decision.score),
    ("topology_match_mode",orNull (fun m => .str m.value) decision.topologyMatchMode),
    ("topology_reason",orNull .str decision.topologyReason),
    ("topology_evidence",.dict decision.topologyEvidence),("meta",.dict decision.metadata),
    ("selected",orNull serializeCandidate decision.selected),
    ("candidates",.list (decision.candidates.map serializeCandidate))]

def serializeRowRef (ref : RowRef) : Value :=
  .dict [("line_no",orNull .int ref.lineNo),("row_id",.str ref.rowId),
    ("identity_primary",orNull .str ref.identityPrimary),
    ("identity_value",orNull .str ref.identityValue)]

/-- `meta or {}` of a read-only view, as `default=str` writes it. -/
def serializeMeta (metadata : Fields) : Value :=
  if metadata = [] then .dict []
  else .str ("mappingproxy(" ++ Value.pyStr (.dict metadata) ++ ")")

def serialize (matched : MatchedRow) (desired metadata : Fields) : PayloadText :=
  .json (.dict [("identity",serializeIdentity matched.identity),
    ("row_ref",serializeRowRef matched.rowRef),("desired_state",.dict desired),
    ("existing",orNull .dict matched.existing),("fingerprint",.str matched.fingerprint),
    ("fingerprint_fields",.list (matched.fingerprintFields.map .str)),
    ("match_decision",serializeMatchDecision matched.matchDecision),
    ("source_links",serializeSourceLinks matched),("target_id",matched.targetId),
    ("meta",serializeMeta metadata)])

def asDict : Value → Option Fields
  | .dict fields => some fields
  | _ => none

def asList : Value → Option (List Value)
  | .list items => some items
  | _ => none

def nonEmptyText : Value → Option String
  | .str s => if s = "" then none else some s
  | _ => none

/-- An optional part: absent, or accepted by its reader. -/
def optional {α : Type} (read : Value → Option α) (v : Value) : Option (Option α) :=
  if v.isNull then some none else (read v).map some

def asText : Value → Option String
  | .str s => some s
  | _ => none

def asNumber : Value → Option Rat
  | .bool b => some (if b then 1 else 0)
  | .int n => some n
  | .float q => some q
  | _ => none

/-- `{str(k): str(v) for k, v in values.items() if v is not None}`. -/
def presentTexts (values : Fields) : Dict String String :=
  values.filterMap fun kv => if kv.2.isNull then none else some (kv.1,kv.2.pyStr)

def deserializeIdentity (v : Value) : Option Identity := do
  let data ← asDict v
  let values ← asDict (Fields.read data "values")
  let primary ← nonEmptyText (Fields.read data "primary")
  return ⟨primary,presentTexts values⟩

def deserializeLineNo : Value → Option Int
  | .str s => Text.parseInt s
  | .int n => some n
  | .bool b => some (if b then 1 else 0)
  | _ => none

def deserializeRowRef (v : Value) : Option RowRef := do
  let data ← asDict v
  let rowId ← nonEmptyText (Fields.read data "row_id")
  let lineNo ← deserializeLineNo (Fields.read data "line_no")
  return ⟨some lineNo,rowId,asText (Fields.read data "identity_primary"),
    asText (Fields.read data "identity_value")⟩

def deserializeCandidate (v : Value) : Option MatchCandidate := do
  let data ← asDict v
  let matchMode ← nonEmptyText (Fields.read data "match_mode")
  let targetId ← optional (fun id => some id.pyStr) (Fields.read data "target_id")
  let identity ← optional (fun id => some id.pyStr) (Fields.read data "identity")
  let score ← optional asNumber (Fields.read data "score")
  let evidence ← optional asDict (Fields.read data "evidence")
  return ⟨targetId,identity,score,matchMode,evidence⟩

def matchDecisionStatus (s : String) : Option MatchDecisionStatus :=
  [.matched,.notFound,.ambiguous,.conflictSource].find? fun status => status.value == s

def topologyMatchMode (s : String) : Option TopologyMatchMode :=
  [.exactCanonicalPath,.exactLeafParentChain,.exactLeafRootDepth,.ambiguous,.noMatch].find?
    fun mode => mode.value == s

def deserializeMatchDecision (v : Value) : Option MatchDecision := do
  let data ← asDict v
  let status ← (asText (Fields.read data "status")).bind matchDecisionStatus
  let reasonCode ← nonEmptyText (Fields.read data "reason_code")
  let selected ← optional deserializeCandidate (Fields.read data "selected")
  let candidates ← (asList (Fields.read data "candidates")).bind
    (List.mapM deserializeCandidate)
  let score ← optional asNumber (Fields.read data "score")
  let mode ← optional (fun v => (asText v).bind topologyMatchMode)
    (Fields.read data "topology_match_mode")
  let reason ← optional asText (Fields.read data "topology_reason")
  let message ← optional asText (Fields.read data "message")
  return { status := status, reasonCode := reasonCode, message := message, selected := selected
           candidates := candidates, score := score, topologyMatchMode := mode
           topologyReason := reason
           topologyEvidence := (asDict (Fields.read data "topology_evidence")).getD []
           metadata := (asDict (Fields.read data "meta")).getD [] }

def deserializeSourceLinks (v : Value) : Option (Dict String Identity) :=
  if v.isNull then some []
  else (asDict v).bind fun links =>
    links.mapM fun link => (deserializeIdentity link.2).map fun identity => (link.1,identity)

def deserializePendingMatchedRow (payload : Fields) : Option (MatchedRow × Fields) := do
  let desired ← asDict (Fields.read payload "desired_state")
  let existing ← optional asDict (Fields.read payload "existing")
  let fingerprint ← nonEmptyText (Fields.read payload "fingerprint")
  let fingerprintFields ← asList (Fields.read payload "fingerprint_fields")
  let identity ← deserializeIdentity (Fields.read payload "identity")
  let ref ← deserializeRowRef (Fields.read payload "row_ref")
  let decision ← deserializeMatchDecision (Fields.read payload "match_decision")
  let links ← deserializeSourceLinks (Fields.read payload "source_links")
  let targetId := Fields.read payload "target_id"
  if identity.primaryValue = "" then none
  else return ({ rowRef := ref, identity := identity, desiredState := desired
                 existing := existing, fingerprint := fingerprint
                 fingerprintFields := fingerprintFields.map Value.pyStr
                 matchDecision := decision, sourceLinks := links
                 targetId := if targetId.isNull then .null else .str targetId.pyStr },
    (asDict (Fields.read payload "meta")).getD [])

structure PendingLoadResult where
  rows : List (TransformResult MatchedRow)
  skipped : Nat
  deriving DecidableEq, Repr

def replayedResult (row : MatchedRow) (metadata : Fields) : TransformResult MatchedRow :=
  { record := ⟨row.rowRef.lineNo.getD 0,row.rowRef.rowId,[]⟩
    row := some row, rowRef := some row.rowRef, matchKey := none, metadata := metadata
    secretCandidates := [], errors := [], warnings := [] }

/-- One stored payload: a row, or nothing for a document that is to be skipped. -/
def loadPayload : PayloadText → Except PyException (Option (TransformResult MatchedRow))
  | .malformed _ => .ok none
  | .json (.dict payload) => .ok ((deserializePendingMatchedRow payload).map fun parsed =>
      replayedResult parsed.1 parsed.2)
  | .json v => .error ⟨"AttributeError","'" ++ v.typeName ++ "' object has no attribute 'get'"⟩

def loadPendingRows (rows : List PendingRow) : Except PyException PendingLoadResult := do
  let loaded ← rows.mapM fun row => loadPayload row.payload
  return ⟨loaded.reduceOption,loaded.countP Option.isNone⟩

/-- What reading a stored payload asks of the row that wrote it. -/
structure Replayable (matched : MatchedRow) : Prop where
  lineNo : matched.rowRef.lineNo.isSome
  rowId : matched.rowRef.rowId ≠ ""
  primary : matched.identity.primary ≠ ""
  primaryValue : matched.identity.primaryValue ≠ ""
  fingerprint : matched.fingerprint ≠ ""
  reasonCode : matched.matchDecision.reasonCode ≠ ""
  selected : ∀ c ∈ matched.matchDecision.selected, c.matchMode ≠ ""
  candidates : ∀ c ∈ matched.matchDecision.candidates, c.matchMode ≠ ""
  links : ∀ link ∈ matched.sourceLinks, link.2.primary ≠ ""

section RoundTrip

theorem optional_orNull {α : Type} {write : α → Value} {read : Value → Option α} {a : Option α}
    (h : ∀ b ∈ a, read (write b) = some b) (hn : ∀ b, (write b).isNull = false) :
    optional read (orNull write a) = some a := by
  cases a with
  | none => rfl
  | some b => simp [orNull, optional, h b rfl, hn]

@[simp] theorem optional_asText (a : Option String) :
    optional asText (orNull .str a) = some a :=
  optional_orNull (fun _ _ => rfl) fun _ => rfl

@[simp] theorem optional_pyStr (a : Option String) :
    optional (fun id => some id.pyStr) (orNull .str a) = some a :=
  optional_orNull (fun _ _ => rfl) fun _ => rfl

@[simp] theorem optional_asNumber (a : Option Rat) :
    optional asNumber (orNull .float a) = some a :=
  optional_orNull (fun _ _ => rfl) fun _ => rfl

@[simp] theorem optional_asDict (a : Option Fields) :
    optional asDict (orNull .dict a) = some a :=
  optional_orNull (fun _ _ => rfl) fun _ => rfl

@[simp] theorem presentTexts_texts (values : Dict String String) :
    presentTexts (values.map fun kv => (kv.1,.str kv.2)) = values := by
  induction values with
  | nil => rfl
  | cons kv values ih =>
    simp only [presentTexts] at ih
    simp [presentTexts, Value.isNull]

@[simp] theorem nonEmptyText_str {s : String} (h : s ≠ "") :
    nonEmptyText (.str s) = some s := by simp [nonEmptyText, h]

theorem deserializeIdentity_serialize {identity : Identity} (h : identity.primary ≠ "") :
    deserializeIdentity (serializeIdentity identity) = some identity := by
  simp [deserializeIdentity, serializeIdentity, serializeTexts, asDict, Fields.read, Dict.get?, h]

theorem deserializeRowRef_serialize {ref : RowRef} (hl : ref.lineNo.isSome)
    (hr : ref.rowId ≠ "") : deserializeRowRef (serializeRowRef ref) = some ref := by
  obtain ⟨lineNo,rowId,primary,value⟩ := ref
  obtain ⟨n,rfl⟩ := Option.isSome_iff_exists.mp hl
  cases primary <;> cases value <;>
    simp_all [deserializeRowRef, serializeRowRef, asDict, Fields.read, Dict.get?, orNull,
      deserializeLineNo, asText]

theorem deserializeCandidate_serialize {candidate : MatchCandidate}
    (h : candidate.matchMode ≠ "") :
    deserializeCandidate (serializeCandidate candidate) = some candidate := by
  have hdict : asDict (serializeCandidate candidate) = some
      [("target_id",orNull .str candidate.targetId),
        ("identity",orNull .str candidate.identity),("score",orNull .float candidate.score),
        ("match_mode",.str candidate.matchMode),
        ("evidence",orNull .dict candidate.evidence)] := rfl
  simp [deserializeCandidate, hdict, Fields.read, Dict.get?, h]

theorem matchDecisionStatus_value (status : MatchDecisionStatus) :
    matchDecisionStatus status.value = some status := by cases status <;> decide

@[simp] theorem optional_topologyMatchMode (mode : Option TopologyMatchMode) :
    optional (fun v => (asText v).bind topologyMatchMode)
      (orNull (fun m => .str m.value) mode) = some mode :=
  optional_orNull (fun m _ => by cases m <;> decide) fun _ => rfl

theorem mapM_read {α β : Type} {read : β → Option α} {write : α → β} {items : List α}
    (h : ∀ a ∈ items, read (write a) = some a) : (items.map write).mapM read = some items := by
  induction items with
  | nil => rfl
  | cons a items ih =>
    simp [h a List.mem_cons_self, ih fun b hb => h b (List.mem_cons_of_mem _ hb)]

theorem deserializeMatchDecision_serialize {decision : MatchDecision}
    (hr : decision.reasonCode ≠ "") (hs : ∀ c ∈ decision.selected, c.matchMode ≠ "")
    (hc : ∀ c ∈ decision.candidates, c.matchMode ≠ "") :
    deserializeMatchDecision (serializeMatchDecision decision) = some decision := by
  have hselected : optional deserializeCandidate (orNull serializeCandidate decision.selected) =
      some decision.selected :=
    optional_orNull (fun c h => deserializeCandidate_serialize (hs c h)) fun _ => rfl
  have hcandidates : (decision.candidates.map serializeCandidate).mapM deserializeCandidate =
      some decision.candidates :=
    mapM_read fun c h => deserializeCandidate_serialize (hc c h)
  have hstatus : (asText (.str decision.status.value)).bind matchDecisionStatus =
      some decision.status := matchDecisionStatus_value decision.status
  have hlist : ∀ items, asList (.list items) = some items := fun _ => rfl
  have hdict : ∀ fields, asDict (.dict fields) = some fields := fun _ => rfl
  simp [deserializeMatchDecision, serializeMatchDecision, hdict, hlist, hstatus, Fields.read,
    Dict.get?, hr, hselected, hcandidates]

theorem deserializeSourceLinks_serialize {matched : MatchedRow}
    (h : ∀ link ∈ matched.sourceLinks, link.2.primary ≠ "") :
    deserializeSourceLinks (serializeSourceLinks matched) = some matched.sourceLinks := by
  have hlinks : (matched.sourceLinks.map fun link => (link.1,serializeIdentity link.2)).mapM
      (fun link => (deserializeIdentity link.2).map fun identity => (link.1,identity)) =
        some matched.sourceLinks :=
    mapM_read fun link hlink => by rw [deserializeIdentity_serialize (h link hlink)]; rfl
  simpa [deserializeSourceLinks, serializeSourceLinks, Value.isNull, asDict] using hlinks

/-- The row that a replay sees: the desired state at the time of writing, and the target
identifier as text. -/
def replayedRow (matched : MatchedRow) (desired : Fields) : MatchedRow :=
  { matched with
    desiredState := desired
    targetId := if matched.targetId.isNull then .null else .str matched.targetId.pyStr }

/-- The document with a given metadata part. -/
def document (matched : MatchedRow) (desired : Fields) (metadata : Value) : PayloadText :=
  .json (.dict [("identity",serializeIdentity matched.identity),
    ("row_ref",serializeRowRef matched.rowRef),("desired_state",.dict desired),
    ("existing",orNull .dict matched.existing),("fingerprint",.str matched.fingerprint),
    ("fingerprint_fields",.list (matched.fingerprintFields.map .str)),
    ("match_decision",serializeMatchDecision matched.matchDecision),
    ("source_links",serializeSourceLinks matched),("target_id",matched.targetId),
    ("meta",metadata)])

theorem loadPayload_document {matched : MatchedRow} (h : Replayable matched)
    (desired : Fields) (metadata : Value) :
    loadPayload (document matched desired metadata) =
      .ok (some (replayedResult (replayedRow matched desired) ((asDict metadata).getD []))) := by
  have hdict : ∀ fields, asDict (.dict fields) = some fields := fun _ => rfl
  have hlist : ∀ items, asList (.list items) = some items := fun _ => rfl
  simp [loadPayload, document, deserializePendingMatchedRow, Fields.read, Dict.get?, hdict,
    hlist, deserializeSourceLinks_serialize h.links, h.primaryValue, h.fingerprint,
    deserializeIdentity_serialize h.primary, deserializeRowRef_serialize h.lineNo h.rowId,
    deserializeMatchDecision_serialize h.reasonCode h.selected h.candidates, replayedRow,
    Function.comp_def]

/-- A stored row is read back with its decision, its existing record and its identity. -/
theorem loadPayload_serialize {matched : MatchedRow} (h : Replayable matched)
    (desired metadata : Fields) :
    loadPayload (serialize matched desired metadata) =
      .ok (some (replayedResult (replayedRow matched desired) [])) := by
  have hmeta : (asDict (serializeMeta metadata)).getD [] = [] := by
    unfold serializeMeta
    split <;> rfl
  have hread := loadPayload_document h desired (serializeMeta metadata)
  rw [hmeta] at hread
  exact hread

/-- Metadata that reaches the writer as a plain dictionary is written in full. -/
def serializeWithDict (matched : MatchedRow) (desired metadata : Fields) : PayloadText :=
  document matched desired (.dict metadata)

/-- A row that the reader accepts comes back as it was written, under its new desired state
and with its metadata. -/
theorem replay_round_trip (matched : MatchedRow) (desired metadata : Fields) (pending : PendingRow)
    (h : Replayable matched)
    (htarget : matched.targetId = .null ∨ ∃ id, matched.targetId = .str id) :
    ∃ result, loadPendingRows
        [{ pending with payload := serializeWithDict matched desired metadata }] =
          .ok ⟨[result],0⟩ ∧
      result.row = some { matched with desiredState := desired } ∧ result.metadata = metadata := by
  have hkept : replayedRow matched desired = { matched with desiredState := desired } := by
    unfold replayedRow
    rcases htarget with hnull | ⟨id,htext⟩
    · rw [hnull]
      rfl
    · rw [htext]
      rfl
  have hload : loadPayload (serializeWithDict matched desired metadata) =
      .ok (some (replayedResult { matched with desiredState := desired } metadata)) := by
    rw [← hkept]
    exact loadPayload_document h desired (.dict metadata)
  have hrows : loadPendingRows
      [{ pending with payload := serializeWithDict matched desired metadata }] =
        .ok ⟨[replayedResult { matched with desiredState := desired } metadata],0⟩ := by
    simp [loadPendingRows, hload, bind, Except.bind, pure, Except.pure, List.reduceOption]
  exact ⟨_,hrows,rfl,rfl⟩

/-- A matched employee with an existing record, a chosen candidate and a source link. -/
def storedEmployee : MatchedRow :=
  { rowRef := ⟨some 2,"line:2",some "code",some "E1"⟩
    identity := ⟨"code",[("code","E1")]⟩
    desiredState := [("code",.str "E1"), ("rank",.int 3)]
    existing := some [("_id",.str "emp-1"), ("code",.str "E1")]
    fingerprint := "f1"
    fingerprintFields := ["code","rank"]
    matchDecision :=
      { status := .matched, reasonCode := "identity_exact", message := none
        selected := some ⟨some "emp-1",some "code:E1",some 1,"exact",none⟩
        candidates := [⟨some "emp-1",some "code:E1",some 1,"exact",none⟩], score := some 1
        topologyMatchMode := none, topologyReason := none, topologyEvidence := [], metadata := [] }
    sourceLinks := [("manager_id",⟨"code",[("code","E9")]⟩)]
    targetId := .str "emp-1" }

/-- Rows without a line number, and with an empty text for the row's name, the reason, a
candidate's mode and the key of a link. -/
def skippedEmployees : List MatchedRow :=
  [{ storedEmployee with rowRef := ⟨none,"line:2",some "code",some "E1"⟩ },
    { storedEmployee with rowRef := ⟨some 2,"",some "code",some "E1"⟩ },
    { storedEmployee with
      matchDecision := { storedEmployee.matchDecision with reasonCode := "" } },
    { storedEmployee with
      matchDecision := { storedEmployee.matchDecision with
        candidates := [⟨some "emp-1",some "code:E1",some 1,"",none⟩] } },
    { storedEmployee with sourceLinks := [("manager_id",⟨"",[("","E9")]⟩)] }]

/-- The reader asks for a line number and for these texts, and skips the rows. -/
theorem stored_rows_skipped :
    (skippedEmployees.all fun matched => matched.identity.primary != "" &&
      matched.identity.primaryValue != "" && matched.fingerprint != "") = true ∧
    (skippedEmployees.map fun matched => loadPendingRows
        [⟨"employees","line:2",serializeWithDict matched [("code",.str "E1")] []⟩]) =
      [.ok ⟨[],1⟩,.ok ⟨[],1⟩,.ok ⟨[],1⟩,.ok ⟨[],1⟩,.ok ⟨[],1⟩] := by
  decide

theorem replay_round_trip_employee :
    ∃ result, loadPendingRows
        [⟨"employees","line:2",serializeWithDict storedEmployee [("code",.str "E1")]
          [("attempt",.int 1)]⟩] = .ok ⟨[result],0⟩ ∧
      result.row = some { storedEmployee with desiredState := [("code",.str "E1")] } ∧
      result.metadata = [("attempt",.int 1)] :=
  replay_round_trip storedEmployee [("code",.str "E1")] [("attempt",.int 1)]
    ⟨"employees","line:2",.json .null⟩
    { lineNo := rfl, rowId := by decide, primary := by decide, primaryValue := by decide
      fingerprint := by decide, reasonCode := by decide
      selected := by
        intro c hc
        cases hc
        decide
      candidates := by
        intro c hc
        rw [List.mem_singleton.mp hc]
        decide
      links := by
        intro link hlink
        rw [List.mem_singleton.mp hlink]
        decide }
    (.inr ⟨"emp-1",rfl⟩)

/-- Loading rows that are all read skips none of them. -/
theorem loadPendingRows_of {P : PendingRow → TransformResult MatchedRow → Prop}
    {rows : List PendingRow}
    (h : ∀ row ∈ rows, ∃ r, loadPayload row.payload = .ok (some r) ∧ P row r) :
    ∃ results, loadPendingRows rows = .ok ⟨results,0⟩ ∧ List.Forall₂ P rows results := by
  have hload : ∃ results, rows.mapM (fun row => loadPayload row.payload) =
      .ok (results.map some) ∧ List.Forall₂ P rows results := by
    induction rows with
    | nil => exact ⟨[],rfl,.nil⟩
    | cons row rows ih =>
      obtain ⟨r,hr,hP⟩ := h row List.mem_cons_self
      obtain ⟨results,hresults,hall⟩ := ih fun row' hrow =>
        h row' (List.mem_cons_of_mem _ hrow)
      exact ⟨r::results,by simp [hr, hresults, bind, Except.bind, pure, Except.pure],.cons hP hall⟩
  obtain ⟨results,hresults,hall⟩ := hload
  refine ⟨results,?_,hall⟩
  have hreduce : (results.map some).reduceOption = results := by
    simp [List.reduceOption, List.filterMap_map]
  have hcount : (results.map some).countP Option.isNone = 0 := by simp
  simp [loadPendingRows, hresults, hreduce, hcount, bind, Except.bind, pure, Except.pure]

/-- A loaded result was read from some row. -/
theorem exists_loaded {P : PendingRow → TransformResult MatchedRow → Prop}
    {rows : List PendingRow} {results : List (TransformResult MatchedRow)}
    (h : List.Forall₂ P rows results) {r : TransformResult MatchedRow} (hr : r ∈ results) :
    ∃ row ∈ rows, P row r := by
  induction h with
  | nil => cases hr
  | cons hrow _ ih =>
    rcases List.mem_cons.mp hr with rfl | hr
    · exact ⟨_,List.mem_cons_self,hrow⟩
    · obtain ⟨row,hmem,hrow⟩ := ih hr
      exact ⟨row,List.mem_cons_of_mem _ hmem,hrow⟩

end RoundTrip

end PendingCodec
end NexusEtl
