import NexusEtl.PendingCodec

/-!
# Loading stored payload texts

The replay reads the payload column as text. A reader refuses a part that has
not the expected shape, and the record is skipped; but parsing the text, asking
a document for a key and converting a score can also raise, and then nothing is
loaded. The readers follow the order of the checks, since only the first
failure counts.
-/

set_option autoImplicit false

namespace NexusEtl
open NexusEtl.Library

/-- The outcomes of `json.loads`: a document, an error that the loader expects, or another one. -/
inductive JsonOutcome
  | value (document : Value)
  | decodeError
  | raises (exc : PyException)
  deriving DecidableEq, Repr

namespace PendingCodec

/-- A reader of one part: it accepts, refuses or raises. -/
abbrev Reader (α : Type) := OptionT (Except PyException) α

/-- `if not …: return None` -/
def check {α : Type} (o : Option α) : Reader α := OptionT.mk (.ok o)

def raise {α : Type} (exc : PyException) : Reader α := OptionT.mk (.error exc)

/-- The least integer that `float` does not convert. -/
def floatLimit : Nat := 2^1024 - 2^970

def hugeScore : Value → Bool
  | .int n => floatLimit ≤ n.natAbs
  | _ => false

def overflowError : PyException := ⟨"OverflowError","int too large to convert to float"⟩

/-- `float(score) if isinstance(score, (int, float)) else None` -/
def readScore (raw : Value) (score : Option Rat) : Reader (Option Rat) :=
  if hugeScore raw then raise overflowError else pure score

/-- `_deserialize_candidate` -/
def readCandidate (v : Value) : Reader MatchCandidate := do
  let data ← check (asDict v)
  let matchMode ← check (nonEmptyText (Fields.read data "match_mode"))
  let targetId ← check (optional (fun id => some id.pyStr) (Fields.read data "target_id"))
  let identity ← check (optional (fun id => some id.pyStr) (Fields.read data "identity"))
  let score ← check (optional asNumber (Fields.read data "score"))
  let evidence ← check (optional asDict (Fields.read data "evidence"))
  let score ← readScore (Fields.read data "score") score
  return ⟨targetId,identity,score,matchMode,evidence⟩

def readOptional {α : Type} (read : Value → Reader α) (v : Value) : Reader (Option α) :=
  if v.isNull then pure none else some <$> read v

def readCandidates : List Value → Reader (List MatchCandidate)
  | [] => pure []
  | item::items => do
    let candidate ← readCandidate item
    let rest ← readCandidates items
    return candidate::rest

/-- `_deserialize_match_decision` -/
def readMatchDecision (v : Value) : Reader MatchDecision := do
  let data ← check (asDict v)
  let statusText ← check (asText (Fields.read data "status"))
  let reasonCode ← check (nonEmptyText (Fields.read data "reason_code"))
  let status ← check (matchDecisionStatus statusText)
  let selected ← readOptional readCandidate (Fields.read data "selected")
  let items ← check (asList (Fields.read data "candidates"))
  let candidates ← readCandidates items
  let score ← check (optional asNumber (Fields.read data "score"))
  let modeText ← check (optional asText (Fields.read data "topology_match_mode"))
  let reason ← check (optional asText (Fields.read data "topology_reason"))
  let message ← check (optional asText (Fields.read data "message"))
  let mode ← check (modeText.elim (some none) fun s => (topologyMatchMode s).map some)
  let score ← readScore (Fields.read data "score") score
  return { status := status, reasonCode := reasonCode, message := message, selected := selected
           candidates := candidates, score := score, topologyMatchMode := mode
           topologyReason := reason
           topologyEvidence := (asDict (Fields.read data "topology_evidence")).getD []
           metadata := (asDict (Fields.read data "meta")).getD [] }

/-- `_deserialize_pending_matched_row` -/
def readMatchedRow (payload : Fields) : Reader (MatchedRow × Fields) := do
  let identityData ← check (asDict (Fields.read payload "identity"))
  let rowRefData ← check (asDict (Fields.read payload "row_ref"))
  let desired ← check (asDict (Fields.read payload "desired_state"))
  let existing ← check (optional asDict (Fields.read payload "existing"))
  let fingerprint ← check (nonEmptyText (Fields.read payload "fingerprint"))
  let fingerprintFields ← check (asList (Fields.read payload "fingerprint_fields"))
  let decisionData ← check (asDict (Fields.read payload "match_decision"))
  let values ← check (asDict (Fields.read identityData "values"))
  let primary ← check (nonEmptyText (Fields.read identityData "primary"))
  let identity := { primary := primary, values := presentTexts values : Identity }
  let _ ← check (if identity.primaryValue = "" then none else some ())
  let rowId ← check (nonEmptyText (Fields.read rowRefData "row_id"))
  let lineNo ← check (deserializeLineNo (Fields.read rowRefData "line_no"))
  let decision ← readMatchDecision (.dict decisionData)
  let links ← check (deserializeSourceLinks (Fields.read payload "source_links"))
  let targetId := Fields.read payload "target_id"
  return ({ rowRef := ⟨some lineNo,rowId,asText (Fields.read rowRefData "identity_primary"),
              asText (Fields.read rowRefData "identity_value")⟩
            identity := identity, desiredState := desired, existing := existing
            fingerprint := fingerprint, fingerprintFields := fingerprintFields.map Value.pyStr
            matchDecision := decision, sourceLinks := links
            targetId := if targetId.isNull then .null else .str targetId.pyStr },
    (asDict (Fields.read payload "meta")).getD [])

section Loader
variable (jsonLoads : String → JsonOutcome)

/-- One round of the loop: `none` counts as skipped. -/
def loadText (text : String) : Except PyException (Option (TransformResult MatchedRow)) :=
  match jsonLoads text with
  | .raises exc => .error exc
  | .decodeError => .ok none
  | .value (.dict payload) => do
    let parsed ← (readMatchedRow payload).run
    return parsed.map fun p => replayedResult p.1 p.2
  | .value v => .error ⟨"AttributeError","'" ++ v.typeName ++ "' object has no attribute 'get'"⟩

def addLoaded (acc : PendingLoadResult) : Option (TransformResult MatchedRow) → PendingLoadResult
  | some row => { acc with rows := acc.rows ++ [row] }
  | none => { acc with skipped := acc.skipped + 1 }

/-- `load_pending_rows` over the stored texts. -/
def loadPendingTexts (texts : List String) : Except PyException PendingLoadResult :=
  texts.foldlM (fun acc text => (loadText jsonLoads text).map (addLoaded acc)) ⟨[],0⟩

/-- The row that a text stands for, when it is a valid payload. -/
def decodeText (text : String) : Option (TransformResult MatchedRow) :=
  match jsonLoads text with
  | .value (.dict payload) =>
    (deserializePendingMatchedRow payload).map fun p => replayedResult p.1 p.2
  | _ => none

end Loader

/-! ## Where a score is reached that is no float -/

def candidateOverflows (v : Value) : Bool :=
  match asDict v with
  | some data => (deserializeCandidate v).isSome && hugeScore (Fields.read data "score")
  | none => false

/-- Some candidate overflows, and the ones before it are accepted. -/
def candidatesOverflow : List Value → Bool
  | [] => false
  | item::items =>
    candidateOverflows item || ((deserializeCandidate item).isSome && candidatesOverflow items)

/-- The selected candidate overflows, or it is accepted and one in the list does, or the
decision is accepted and its own score does. -/
def decisionOverflows (v : Value) : Bool :=
  match asDict v with
  | none => false
  | some data =>
    ((asText (Fields.read data "status")).bind matchDecisionStatus).isSome &&
    (nonEmptyText (Fields.read data "reason_code")).isSome &&
    (candidateOverflows (Fields.read data "selected") ||
      ((optional deserializeCandidate (Fields.read data "selected")).isSome &&
        ((asList (Fields.read data "candidates")).any candidatesOverflow ||
          ((deserializeMatchDecision v).isSome && hugeScore (Fields.read data "score")))))

/-- The parts that come before the decision are accepted. -/
def beforeDecision (payload : Fields) : Bool :=
  (asDict (Fields.read payload "desired_state")).isSome &&
  (optional asDict (Fields.read payload "existing")).isSome &&
  (nonEmptyText (Fields.read payload "fingerprint")).isSome &&
  (asList (Fields.read payload "fingerprint_fields")).isSome &&
  (deserializeIdentity (Fields.read payload "identity")).any (·.primaryValue ≠ "") &&
  (deserializeRowRef (Fields.read payload "row_ref")).isSome

/-- What the loader counts on: the text is parsed or has a decoding error, what is parsed is an
object, and no score that is reached is beyond the floats. -/
def Contained (jsonLoads : String → JsonOutcome) (text : String) : Prop :=
  jsonLoads text = .decodeError ∨ ∃ payload, jsonLoads text = .value (.dict payload) ∧
    ¬ (beforeDecision payload = true ∧
      decisionOverflows (Fields.read payload "match_decision") = true)

/-- A reader that accepts what `o` does, unless it raises for a score first. -/
def orOverflow {α : Type} (overflows : Bool) (o : Option α) : Reader α :=
  if overflows then raise overflowError else check o

/-- A check at the head of a reader: what is refused there is refused by the whole. -/
theorem check_bind {α β : Type} {o : Option α} {f : α → Reader β} {overflows : Bool}
    {p : Option β} (hnone : o = none → overflows = false ∧ p = none)
    (hsome : ∀ a, o = some a → f a = orOverflow overflows p) :
    (check o >>= f) = orOverflow overflows p := by
  cases o with
  | none =>
    obtain ⟨rfl,rfl⟩ := hnone rfl
    rfl
  | some a => exact hsome a rfl

/-- A part at the head of a reader: what it raises the whole raises. -/
theorem orOverflow_bind {α β : Type} {part : Bool} {o : Option α} {f : α → Reader β}
    {overflows : Bool} {p : Option β} (hraise : part = true → overflows = true)
    (hnone : part = false → o = none → overflows = false ∧ p = none)
    (hsome : part = false → ∀ a, o = some a → f a = orOverflow overflows p) :
    (orOverflow part o >>= f) = orOverflow overflows p := by
  cases part with
  | true =>
    rw [hraise rfl]
    rfl
  | false => exact check_bind (hnone rfl) (hsome rfl)

theorem readScore_bind {β : Type} (raw : Value) (score : Option Rat) (g : Option Rat → β) :
    (readScore raw score >>= fun score => (pure (g score) : Reader β)) =
      orOverflow (hugeScore raw) (some (g score)) := by
  unfold readScore orOverflow
  cases hugeScore raw <;> rfl

theorem readCandidate_eq (v : Value) :
    readCandidate v = orOverflow (candidateOverflows v) (deserializeCandidate v) := by
  apply check_bind
  · intro hdata
    simp [candidateOverflows, deserializeCandidate, hdata]
  intro data hdata
  apply check_bind
  · intro hmode
    simp [candidateOverflows, deserializeCandidate, hdata, hmode]
  intro matchMode hmode
  apply check_bind
  · intro htarget
    simp [candidateOverflows, deserializeCandidate, hdata, htarget]
  intro targetId htarget
  apply check_bind
  · intro hidentity
    simp [candidateOverflows, deserializeCandidate, hdata, hidentity]
  intro identity hidentity
  apply check_bind
  · intro hscore
    simp [candidateOverflows, deserializeCandidate, hdata, hscore]
  intro score hscore
  apply check_bind
  · intro hevidence
    simp [candidateOverflows, deserializeCandidate, hdata, hevidence]
  intro evidence hevidence
  have hall : deserializeCandidate v = some ⟨targetId,identity,score,matchMode,evidence⟩ := by
    simp [deserializeCandidate, hdata, hmode, htarget, hidentity, hscore, hevidence]
  rw [readScore_bind, candidateOverflows, hdata, hall]
  rfl

example : (readCandidate (.dict [("match_mode",.str "identity"),("score",.int (2^1024))])).run =
    .error overflowError := by decide +kernel

theorem readSelected_eq (v : Value) :
    readOptional readCandidate v =
      orOverflow (candidateOverflows v) (optional deserializeCandidate v) := by
  unfold readOptional optional
  by_cases hnull : v.isNull = true
  · rw [if_pos hnull, if_pos hnull]
    cases v with
    | null => rfl
    | _ => cases hnull
  · rw [if_neg hnull, if_neg hnull, readCandidate_eq]
    unfold orOverflow
    cases candidateOverflows v <;> cases deserializeCandidate v <;> rfl

theorem readCandidates_eq (items : List Value) :
    readCandidates items =
      orOverflow (candidatesOverflow items) (items.mapM deserializeCandidate) := by
  induction items with
  | nil => rfl
  | cons item items ih =>
    rw [readCandidates, readCandidate_eq, ih]
    apply orOverflow_bind
    · intro h
      simp [candidatesOverflow, h]
    · intro hfine hnone
      simp [candidatesOverflow, hfine, hnone]
    · intro hfine candidate hcandidate
      apply orOverflow_bind
      · intro h
        simp [candidatesOverflow, hcandidate, h]
      · intro h hnone
        simp [candidatesOverflow, hfine, h, hcandidate, hnone]
      · intro h rest hrest
        have hwhole : candidatesOverflow (item::items) = false := by
          simp [candidatesOverflow, hfine, h]
        have hlist : (item::items).mapM deserializeCandidate = some (candidate::rest) := by
          simp [hcandidate, hrest]
        rw [hwhole, hlist]
        rfl

theorem optional_mode (v : Value) :
    optional (fun v => (asText v).bind topologyMatchMode) v =
      (optional asText v).bind fun text =>
        text.elim (some none) fun s => (topologyMatchMode s).map some := by
  cases v <;> simp [optional, Value.isNull, asText]

theorem isSome_bind_of {α β : Type} {o : Option α} {f : α → Option β} {c : Bool}
    (h : ∀ a, (f a).isSome = c) : (o.bind f).isSome = (o.isSome && c) := by
  cases o with
  | none => rfl
  | some a => exact h a

/-- A decision is accepted when each of its parts is. -/
theorem isSome_deserializeMatchDecision {v : Value} {data : Fields} (hdata : asDict v = some data) :
    (deserializeMatchDecision v).isSome =
      (((asText (Fields.read data "status")).bind matchDecisionStatus).isSome &&
      ((nonEmptyText (Fields.read data "reason_code")).isSome &&
      ((optional deserializeCandidate (Fields.read data "selected")).isSome &&
      (((asList (Fields.read data "candidates")).bind (List.mapM deserializeCandidate)).isSome &&
      ((optional asNumber (Fields.read data "score")).isSome &&
      ((optional (fun v => (asText v).bind topologyMatchMode)
        (Fields.read data "topology_match_mode")).isSome &&
      ((optional asText (Fields.read data "topology_reason")).isSome &&
      ((optional asText (Fields.read data "message")).isSome && true)))))))) := by
  rw [deserializeMatchDecision, hdata]
  simp only [Option.bind_eq_bind, Option.bind_some]
  apply isSome_bind_of
  intro status
  apply isSome_bind_of
  intro reasonCode
  apply isSome_bind_of
  intro selected
  apply isSome_bind_of
  intro candidates
  apply isSome_bind_of
  intro score
  apply isSome_bind_of
  intro mode
  apply isSome_bind_of
  intro reason
  apply isSome_bind_of
  intro message
  rfl

theorem readMatchDecision_eq (v : Value) :
    readMatchDecision v = orOverflow (decisionOverflows v) (deserializeMatchDecision v) := by
  apply check_bind
  · intro hdata
    simp [decisionOverflows, deserializeMatchDecision, hdata]
  intro data hdata
  have hparts := isSome_deserializeMatchDecision hdata
  have hnone (h : (deserializeMatchDecision v).isSome = false) :
      deserializeMatchDecision v = none := by simpa using h
  apply check_bind
  · intro htext
    exact ⟨by simp [decisionOverflows, hdata, htext],hnone (by simp [hparts, htext])⟩
  intro statusText htext
  apply check_bind
  · intro hreason
    exact ⟨by simp [decisionOverflows, hdata, hreason],hnone (by simp [hparts, hreason])⟩
  intro reasonCode hreason
  apply check_bind
  · intro hstatus
    exact ⟨by simp [decisionOverflows, hdata, htext, hstatus],
      hnone (by simp [hparts, htext, hstatus])⟩
  intro status hstatus
  rw [readSelected_eq]
  apply orOverflow_bind
  · intro hover
    simp [decisionOverflows, hdata, htext, hstatus, hreason, hover]
  · intro hfine hselected
    exact ⟨by simp [decisionOverflows, hdata, hfine, hselected],
      hnone (by simp [hparts, hselected])⟩
  intro hfine selected hselected
  apply check_bind
  · intro hitems
    have hrefused : deserializeMatchDecision v = none := hnone (by simp [hparts, hitems])
    exact ⟨by simp [decisionOverflows, hdata, hfine, hitems, hrefused],hrefused⟩
  intro items hitems
  rw [readCandidates_eq]
  apply orOverflow_bind
  · intro hover
    simp [decisionOverflows, hdata, htext, hstatus, hreason, hselected, hitems, hover]
  · intro hnext hcandidates
    have hrefused : deserializeMatchDecision v = none :=
      hnone (by simp [hparts, hitems, hcandidates])
    exact ⟨by simp [decisionOverflows, hdata, hfine, hitems, hnext, hrefused],hrefused⟩
  intro hnext candidates hcandidates
  -- from here on only the score of the decision itself can overflow
  have hown : decisionOverflows v =
      ((deserializeMatchDecision v).isSome && hugeScore (Fields.read data "score")) := by
    simp [decisionOverflows, hdata, htext, hstatus, hreason, hfine, hselected, hitems, hnext]
  rw [hown]
  have hrefused (h : (deserializeMatchDecision v).isSome = false) :
      ((deserializeMatchDecision v).isSome && hugeScore (Fields.read data "score")) = false ∧
        deserializeMatchDecision v = none := ⟨by rw [h]; rfl,hnone h⟩
  apply check_bind
  · intro hscore
    exact hrefused (by simp [hparts, hscore])
  intro score hscore
  apply check_bind
  · intro hmode
    exact hrefused (by simp [hparts, optional_mode, hmode])
  intro modeText hmodeText
  apply check_bind
  · intro htopology
    exact hrefused (by simp [hparts, htopology])
  intro reason htopology
  apply check_bind
  · intro hmessage
    exact hrefused (by simp [hparts, hmessage])
  intro message hmessage
  apply check_bind
  · intro hmode
    exact hrefused (by simp [hparts, optional_mode, hmodeText, hmode])
  intro mode hmode
  rw [readScore_bind]
  have hall : deserializeMatchDecision v = some
      { status := status, reasonCode := reasonCode, message := message, selected := selected
        candidates := candidates, score := score, topologyMatchMode := mode
        topologyReason := reason
        topologyEvidence := (asDict (Fields.read data "topology_evidence")).getD []
        metadata := (asDict (Fields.read data "meta")).getD [] } := by
    simp [deserializeMatchDecision, hdata, htext, hstatus, hreason, hselected, hitems, hcandidates,
      hscore, optional_mode, hmodeText, hmode, htopology, hmessage]
  rw [hall]
  rfl

/-- An accepted payload has an accepted decision, and before it all that the reader asks for. -/
theorem parts_of_accepted {payload : Fields} {accepted : MatchedRow × Fields}
    (h : deserializePendingMatchedRow payload = some accepted) :
    beforeDecision payload = true ∧
      (deserializeMatchDecision (Fields.read payload "match_decision")).isSome ∧
      (deserializeSourceLinks (Fields.read payload "source_links")).isSome := by
  simp only [deserializePendingMatchedRow, Option.bind_eq_bind, Option.bind_eq_some_iff] at h
  obtain ⟨desired,hdesired,existing,hexisting,fingerprint,hfingerprint,fields,hfields,h⟩ := h
  obtain ⟨identity,hidentity,ref,href,decision,hdecision,links,hlinks,h⟩ := h
  by_cases hempty : identity.primaryValue = ""
  · rw [if_pos hempty] at h
    cases h
  · refine ⟨?_,by simp [hdecision],by simp [hlinks]⟩
    simp [beforeDecision, hdesired, hexisting, hfingerprint, hfields, hidentity, href, hempty]

theorem readMatchedRow_eq (payload : Fields) :
    readMatchedRow payload = orOverflow
      (beforeDecision payload && decisionOverflows (Fields.read payload "match_decision"))
      (deserializePendingMatchedRow payload) := by
  have hrefused (hbefore : beforeDecision payload = false) :
      (beforeDecision payload && decisionOverflows (Fields.read payload "match_decision")) = false ∧
        deserializePendingMatchedRow payload = none := by
    refine ⟨by rw [hbefore]; rfl,Option.eq_none_iff_forall_ne_some.mpr fun accepted h => ?_⟩
    rw [(parts_of_accepted h).1] at hbefore
    cases hbefore
  apply check_bind
  · intro h
    exact hrefused (by simp [beforeDecision, deserializeIdentity, h])
  intro identityData hidentityData
  apply check_bind
  · intro h
    exact hrefused (by simp [beforeDecision, deserializeRowRef, h])
  intro rowRefData hrowRefData
  apply check_bind
  · intro h
    exact hrefused (by simp [beforeDecision, h])
  intro desired hdesired
  apply check_bind
  · intro h
    exact hrefused (by simp [beforeDecision, h])
  intro existing hexisting
  apply check_bind
  · intro h
    exact hrefused (by simp [beforeDecision, h])
  intro fingerprint hfingerprint
  apply check_bind
  · intro h
    exact hrefused (by simp [beforeDecision, h])
  intro fingerprintFields hfields
  -- the parts that are read after the decision, or that are the decision
  have hlater (hfine : decisionOverflows (Fields.read payload "match_decision") = false)
      (hmissing : (deserializeMatchDecision (Fields.read payload "match_decision")).isSome = false ∨
        (deserializeSourceLinks (Fields.read payload "source_links")).isSome = false) :
      (beforeDecision payload && decisionOverflows (Fields.read payload "match_decision")) = false ∧
        deserializePendingMatchedRow payload = none := by
    refine ⟨by rw [hfine, Bool.and_false],Option.eq_none_iff_forall_ne_some.mpr fun accepted h => ?_⟩
    obtain ⟨-,hdecision,hlinks⟩ := parts_of_accepted h
    rcases hmissing with hmissing | hmissing
    · rw [hmissing] at hdecision
      cases hdecision
    · rw [hmissing] at hlinks
      cases hlinks
  apply check_bind
  · intro h
    exact hlater (by simp [decisionOverflows, h])
      (.inl (by simp [deserializeMatchDecision, h]))
  intro decisionData hdecisionData
  apply check_bind
  · intro h
    exact hrefused (by simp [beforeDecision, deserializeIdentity, hidentityData, h])
  intro values hvalues
  apply check_bind
  · intro h
    exact hrefused (by simp [beforeDecision, deserializeIdentity, hidentityData, h])
  intro primary hprimary
  have hidentity : deserializeIdentity (Fields.read payload "identity") =
      some ⟨primary,presentTexts values⟩ := by
    simp [deserializeIdentity, hidentityData, hvalues, hprimary]
  apply check_bind
  · intro h
    have hempty : ({ primary := primary, values := presentTexts values : Identity }).primaryValue =
        "" := by
      by_contra hne
      rw [if_neg hne] at h
      cases h
    exact hrefused (by simp [beforeDecision, hidentity, hempty])
  intro done hvalue
  have hne : ({ primary := primary, values := presentTexts values : Identity }).primaryValue ≠
      "" := by
    intro hempty
    rw [if_pos hempty] at hvalue
    cases hvalue
  apply check_bind
  · intro h
    exact hrefused (by simp [beforeDecision, deserializeRowRef, hrowRefData, h])
  intro rowId hrowId
  apply check_bind
  · intro h
    exact hrefused (by simp [beforeDecision, deserializeRowRef, hrowRefData, h])
  intro lineNo hlineNo
  have hrowRef : deserializeRowRef (Fields.read payload "row_ref") =
      some ⟨some lineNo,rowId,asText (Fields.read rowRefData "identity_primary"),
        asText (Fields.read rowRefData "identity_value")⟩ := by
    simp [deserializeRowRef, hrowRefData, hrowId, hlineNo]
  have hbefore : beforeDecision payload = true := by
    simp [beforeDecision, hdesired, hexisting, hfingerprint, hfields, hidentity, hrowRef, hne]
  have hdict : Fields.read payload "match_decision" = .dict decisionData := by
    cases hread : Fields.read payload "match_decision" <;> rw [hread] at hdecisionData <;>
      cases hdecisionData
    rfl
  rw [hbefore, Bool.true_and, ← hdict, readMatchDecision_eq]
  rw [hbefore, Bool.true_and] at hlater
  apply orOverflow_bind
  · exact id
  · intro hfine hdecision
    exact hlater hfine (.inl (by rw [hdecision]; rfl))
  intro hfine decision hdecision
  apply check_bind
  · intro hlinks
    exact hlater hfine (.inr (by rw [hlinks]; rfl))
  intro links hlinks
  rw [hfine]
  apply congrArg check
  simp [deserializePendingMatchedRow, hdesired, hexisting, hfingerprint, hfields, hidentity,
    hrowRef, hdecision, hlinks, hne]

/-! ## The loop -/

section Loader
variable {jsonLoads : String → JsonOutcome}

theorem loadText_contained {text : String} (h : Contained jsonLoads text) :
    loadText jsonLoads text = .ok (decodeText jsonLoads text) := by
  unfold loadText decodeText
  rcases h with h | ⟨payload,h,hfine⟩
  · rw [h]
  · have hnone : (beforeDecision payload &&
        decisionOverflows (Fields.read payload "match_decision")) = false := by
      simpa using hfine
    have hread := readMatchedRow_eq payload
    rw [hnone] at hread
    simp only [h, hread]
    rfl

theorem loadText_raises {text : String} (h : ¬ Contained jsonLoads text) :
    ∃ exc, loadText jsonLoads text = .error exc := by
  unfold loadText
  cases hout : jsonLoads text with
  | raises exc => exact ⟨exc,rfl⟩
  | decodeError => exact absurd (.inl hout) h
  | value v =>
    cases v with
    | dict payload =>
      have hover : (beforeDecision payload &&
          decisionOverflows (Fields.read payload "match_decision")) = true := by
        by_contra hfine
        exact h (.inr ⟨payload,hout,by simpa using hfine⟩)
      have hread := readMatchedRow_eq payload
      rw [hover] at hread
      refine ⟨overflowError,?_⟩
      simp only [hread]
      rfl
    | _ => exact ⟨_,rfl⟩

/-- The loop over contained texts: the rows in order, and the rest counted. -/
theorem loop_contained {texts : List String} (h : ∀ text ∈ texts, Contained jsonLoads text)
    (acc : PendingLoadResult) :
    texts.foldlM (fun acc text => (loadText jsonLoads text).map (addLoaded acc)) acc =
      .ok ⟨acc.rows ++ texts.filterMap (decodeText jsonLoads),
        acc.skipped + texts.countP fun text => (decodeText jsonLoads text).isNone⟩ := by
  induction texts generalizing acc with
  | nil => simp [pure, Except.pure]
  | cons text texts ih =>
    have hrest := ih fun t ht => h t (List.mem_cons_of_mem _ ht)
    rw [List.foldlM_cons, loadText_contained (h text List.mem_cons_self)]
    show texts.foldlM _ (addLoaded acc (decodeText jsonLoads text)) = _
    rw [hrest]
    cases hdecode : decodeText jsonLoads text with
    | some row => simp [addLoaded, hdecode]
    | none =>
      simp only [addLoaded, List.filterMap_cons, hdecode, List.countP_cons, Option.isNone_none,
        if_true]
      congr 2
      omega

theorem loop_raises {texts : List String} (h : ∃ text ∈ texts, ¬ Contained jsonLoads text)
    (acc : PendingLoadResult) :
    ∃ exc, texts.foldlM (fun acc text => (loadText jsonLoads text).map (addLoaded acc)) acc =
      .error exc := by
  induction texts generalizing acc with
  | nil =>
    obtain ⟨text,hmem,-⟩ := h
    cases hmem
  | cons text texts ih =>
    rw [List.foldlM_cons]
    by_cases hfirst : Contained jsonLoads text
    · rw [loadText_contained hfirst]
      apply ih
      obtain ⟨t,hmem,hbad⟩ := h
      rcases List.mem_cons.mp hmem with rfl | hmem
      · exact absurd hfirst hbad
      · exact ⟨t,hmem,hbad⟩
    · obtain ⟨exc,hexc⟩ := loadText_raises hfirst
      exact ⟨exc,by rw [hexc]; rfl⟩

/-- Every text gives a row or is counted. -/
theorem length_filterMap_add_countP {α β : Type} (f : α → Option β) (l : List α) :
    (l.filterMap f).length + l.countP (fun a => (f a).isNone) = l.length := by
  rw [List.length_filterMap_eq_countP, List.length_eq_countP_add_countP fun a => (f a).isSome]
  apply congrArg
  apply List.countP_congr
  intro a _
  cases f a <;> simp

/-- The payload column that a text stands for in a pending row. -/
def payloadOf (jsonLoads : String → JsonOutcome) (text : String) : PayloadText :=
  match jsonLoads text with
  | .value v => .json v
  | _ => .malformed text

theorem loadPayload_payloadOf {text : String} (h : Contained jsonLoads text) :
    loadPayload (payloadOf jsonLoads text) = .ok (decodeText jsonLoads text) := by
  unfold payloadOf decodeText
  rcases h with h | ⟨payload,h,-⟩ <;> rw [h] <;> rfl

/-- On contained texts the loader is the replay's loader of pending rows. -/
theorem loadPendingTexts_eq_rows {rows : List PendingRow} {text : PendingRow → String}
    (hpayload : ∀ row ∈ rows, row.payload = payloadOf jsonLoads (text row))
    (h : ∀ row ∈ rows, Contained jsonLoads (text row)) :
    loadPendingTexts jsonLoads (rows.map text) = loadPendingRows rows := by
  have hrows : rows.mapM (fun row => loadPayload row.payload) =
      .ok (rows.map fun row => decodeText jsonLoads (text row)) := by
    induction rows with
    | nil => rfl
    | cons row rows ih =>
      have hrest := ih (fun r hr => hpayload r (List.mem_cons_of_mem _ hr))
        fun r hr => h r (List.mem_cons_of_mem _ hr)
      rw [List.mapM_cons, hpayload row List.mem_cons_self,
        loadPayload_payloadOf (h row List.mem_cons_self), hrest]
      rfl
  have hcontained : ∀ t ∈ rows.map text, Contained jsonLoads t := by
    intro t ht
    obtain ⟨row,hrow,rfl⟩ := List.mem_map.mp ht
    exact h row hrow
  rw [loadPendingTexts, loop_contained hcontained, loadPendingRows, hrows]
  simp [List.reduceOption, List.filterMap_map, List.countP_map, Function.comp_def]

/-- The loader raises nothing exactly when every text is contained, and then it gives the rows
of the valid payloads in order and counts the rest. -/
theorem load_total_iff (jsonLoads : String → JsonOutcome) (texts : List String) :
    (∃ result, loadPendingTexts jsonLoads texts = .ok result ∧
      result.rows.length + result.skipped = texts.length ∧
      result.rows = texts.filterMap (decodeText jsonLoads)) ↔
    ∀ text ∈ texts, Contained jsonLoads text := by
  constructor
  · rintro ⟨result,hload,-⟩
    by_contra h
    simp only [not_forall] at h
    obtain ⟨text,hmem,hbad⟩ := h
    obtain ⟨exc,hraise⟩ := loop_raises ⟨text,hmem,hbad⟩ ⟨[],0⟩
    rw [loadPendingTexts, hraise] at hload
    cases hload
  · intro h
    refine ⟨_,loop_contained h ⟨[],0⟩,?_,List.nil_append _⟩
    simpa using length_filterMap_add_countP (decodeText jsonLoads) texts

/-- An empty list and what is no JSON, as `json.loads` reads them. -/
def sampleLoads : String → JsonOutcome
  | "[]" => .value (.list [])
  | _ => .decodeError

/-- A stored JSON list is no object to ask for keys. -/
theorem load_raises_for_list :
    loadPendingTexts sampleLoads ["\x7b","[]"] =
      .error ⟨"AttributeError","'list' object has no attribute 'get'"⟩ := by decide

end Loader
end PendingCodec
end NexusEtl
