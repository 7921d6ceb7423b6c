import NexusEtl.Enrich
import NexusEtl.Library.Fallible

/-!
# What enrichment changes in a row

An operation that runs changes nothing, or it writes the value of its selected
candidate to its one target, which its merge policy allowed. A run is the list
of these turns: each field of the row holds the last value written to it, and
the fields of stored secrets are cleared at the end.
-/

set_option autoImplicit false

namespace NexusEtl
open NexusEtl.Library

/-- The value of a field, if there is a row and it has the field. -/
def rowGet (row : Option Fields) (field : String) : Option Value :=
  row.bind fun row => Dict.get? row field

/-- A target that names a field of the row. -/
def isRowField (field : String) : Bool := decide (field ≠ "match_key") && !isSecretTarget field

/-- The values that an operation reports as applied, each with its field. -/
def OperationReport.applied (report : OperationReport) : List (String × Value) :=
  (report.events.filter (·.outcome == .applied)).map fun e => (e.field,e.after)

namespace EnricherCore

variable {D : Type} (core : EnricherCore D) (deps : D)

def modeOf (op : EnrichmentOperation D) : MergeMode :=
  op.mergePolicy.getD core.spec.defaultMergePolicy

/-- An operation that ran: the states around it and its report. -/
structure Turn (D : Type) where
  op : EnrichmentOperation D
  before : EnrichState
  after : EnrichState
  report : OperationReport

/-- The values that a turn writes to a field of the row. -/
def Turn.written (turn : Turn D) (field : String) : List Value :=
  if isRowField field then
    (turn.report.applied.filter fun entry => entry.1 == field).map Prod.snd
  else []

/-- The turns of the loop over the operations. -/
def turns : List (EnrichmentOperation D) → RunState → List (Turn D)
  | [], _ => []
  | op::ops, run =>
    if core.shouldRunOperation op run.state.builder.errors then
      match core.executeOperation deps core.context op run.state,
          core.stepOperation deps core.context op run with
      | .ok (after,report), .ok (next,stop) =>
        ⟨op,run.state,after,report⟩::if stop then [] else turns ops next
      | _, _ => []
    else turns ops run

def turnsOf (result : Enriching) : List (Turn D) :=
  match result.row with
  | none => []
  | some _ => core.turns deps core.spec.operations (core.startRun result)

/-- The secret fields that `_store_secrets` clears at the end. -/
def clearedFields (result : Enriching) : List String :=
  match result.row, core.runOperations deps core.context core.spec.operations
      (core.startRun result) with
  | some _, .ok run =>
    if run.state.builder.matchKey.isSome then Dict.keys run.state.builder.secretCandidates else []
  | _, _ => []

/-- What the conflict resolver decides about the candidates of a turn. -/
def decisionOf (turn : Turn D) : Option CandidateDecision :=
  match core.resolveKeys turn.before.builder turn.op.requiredKeys with
  | .error _ => none
  | .ok keys =>
    match core.collectCandidates deps core.context turn.op turn.before.builder keys with
    | .ok (.ok candidates) => some (ConflictResolver.decide candidates)
    | _ => none

/-- A turn that writes the value of its candidate to its target. -/
structure Applies (turn : Turn D) (field : String) (candidate : CandidateValue) : Prop where
  target : turn.op.targets = [field]
  decision : core.decisionOf deps turn = some (.selected candidate)
  allowed : MergeEngine.shouldApply core.spec.authoritativeSources
    (getFieldValue turn.before.builder field) candidate (core.modeOf turn.op) = true
  valid : core.sinkTargetIssues (sinkFieldName field) candidate.value = []
  builder : turn.after.builder = setFieldValue turn.before.builder field candidate.value
  reported : turn.report.applied = [(field,candidate.value)]

/-- What every turn is: an operation of the specification that was to run, and that changed
nothing or wrote its candidate. -/
structure Framed (turn : Turn D) : Prop where
  mem : turn.op ∈ core.spec.operations
  runs : core.shouldRunOperation turn.op turn.before.builder.errors = true
  effect : (turn.after = turn.before ∧ turn.report.applied = []) ∨
    ∃ field candidate, core.Applies deps turn field candidate

/-- A turn without a selected candidate, or whose candidate the sink schema refuses. -/
def Refused (turn : Turn D) : Prop :=
  ∀ candidate, core.decisionOf deps turn = some (.selected candidate) →
    ∃ target ∈ turn.op.targets, core.sinkTargetIssues (sinkFieldName target) candidate.value ≠ []

theorem reportByPolicy_applied (builder : Enriching) (op : EnrichmentOperation D)
    (outcome : EnrichOutcome) (code message : String) (field : Option String)
    (reason : String) (details : Fields) :
    (core.reportByPolicy builder op outcome code message field reason details).applied = [] := rfl

theorem applyTargets_framed (op : EnrichmentOperation D) (candidate : CandidateValue)
    (mode : MergeMode) (field : String) (state : EnrichState) :
    ((core.applyTargets op candidate mode [field] state []).1 = state ∧
        (core.applyTargets op candidate mode [field] state []).2.applied = []) ∨
      (MergeEngine.shouldApply core.spec.authoritativeSources
          (getFieldValue state.builder field) candidate mode = true ∧
        core.sinkTargetIssues (sinkFieldName field) candidate.value = [] ∧
        (core.applyTargets op candidate mode [field] state []).1.builder =
          setFieldValue state.builder field candidate.value ∧
        (core.applyTargets op candidate mode [field] state []).2.applied =
          [(field,candidate.value)]) := by
  simp only [applyTargets, List.nil_append]
  split
  · exact .inl ⟨rfl,rfl⟩
  · rename_i hallowed
    split
    · exact .inl ⟨rfl,reportByPolicy_applied _ _ _ _ _ _ _ _ _⟩
    · rename_i hvalid
      exact .inr ⟨by simpa using hallowed,hvalid,rfl,rfl⟩

/-- Only a selected candidate is applied. -/
theorem decideCandidates_framed {op : EnrichmentOperation D} {field : String}
    (htarget : op.targets = [field]) (keys : Fields) (state : EnrichState)
    (collected : Collected) :
    ((core.decideCandidates op keys state collected).1 = state ∧
        (core.decideCandidates op keys state collected).2.applied = []) ∨
      ∃ candidates candidate, collected = .ok candidates ∧
        ConflictResolver.decide candidates = .selected candidate ∧
        core.decideCandidates op keys state collected =
          core.applyTargets op candidate (core.modeOf op) [field] state [] := by
  unfold decideCandidates
  cases collected with
  | error e => exact .inl ⟨rfl,core.reportByPolicy_applied _ _ _ _ _ _ _ _⟩
  | ok candidates =>
    dsimp only
    cases hdecide : ConflictResolver.decide candidates with
    | none =>
      refine .inl ⟨rfl,?_⟩
      dsimp only
      split
      · split <;> exact core.reportByPolicy_applied _ _ _ _ _ _ _ _
      · exact core.reportByPolicy_applied _ _ _ _ _ _ _ _
    | ambiguous items => exact .inl ⟨rfl,rfl⟩
    | selected candidate =>
      exact .inr ⟨candidates,candidate,rfl,hdecide,by rw [htarget]; rfl⟩

theorem executeOperation_framed {op : EnrichmentOperation D} {before after : EnrichState}
    {report : OperationReport}
    (h : core.executeOperation deps core.context op before = .ok (after,report)) :
    (after = before ∧ report.applied = []) ∨
      ∃ field candidate, core.Applies deps ⟨op,before,after,report⟩ field candidate := by
  unfold executeOperation at h
  split at h
  · cases h
    exact .inl ⟨rfl,core.reportByPolicy_applied _ _ _ _ _ _ _ _⟩
  · rename_i hlength
    obtain ⟨field,htarget⟩ := List.length_eq_one_iff.mp (not_not.mp hlength)
    obtain ⟨keys,hkeys,h⟩ := bind_ok_iff.mp h
    split at h
    · cases h
      exact .inl ⟨rfl,core.reportByPolicy_applied _ _ _ _ _ _ _ _⟩
    · obtain ⟨collected,hcollected,h⟩ := bind_ok_iff.mp h
      have hout : core.decideCandidates op keys before collected = (after,report) :=
        Except.ok.inj h
      rcases core.decideCandidates_framed htarget keys before collected with
        hnone | ⟨candidates,candidate,rfl,hdecide,happly⟩
      · rw [hout] at hnone
        exact .inl hnone
      · have hframed := core.applyTargets_framed op candidate (core.modeOf op) field before
        rw [← happly, hout] at hframed
        rcases hframed with hnone | ⟨hallowed,hvalid,hbuilder,hreported⟩
        · exact .inl hnone
        · refine .inr ⟨field,candidate,htarget,?_,hallowed,hvalid,hbuilder,hreported⟩
          simp only [decisionOf, hkeys, hcollected, hdecide]

theorem stepOperation_row {op : EnrichmentOperation D} {run next : RunState} {stop : Bool}
    {after : EnrichState} {report : OperationReport}
    (hruns : core.shouldRunOperation op run.state.builder.errors = true)
    (hexec : core.executeOperation deps core.context op run.state = .ok (after,report))
    (hstep : core.stepOperation deps core.context op run = .ok (next,stop)) :
    next.state.builder.row = after.builder.row := by
  unfold stepOperation at hstep
  rw [if_pos hruns, hexec] at hstep
  obtain ⟨executed,hexecuted,hstep⟩ := bind_ok_iff.mp hstep
  obtain ⟨events,_,hstep⟩ := bind_ok_iff.mp hstep
  obtain ⟨fields,_,hstep⟩ := bind_ok_iff.mp hstep
  cases hexecuted
  cases hstep
  rfl

/-! ## Fields of the row -/

theorem row_setFieldValue_isSome (builder : Enriching) (field : String) (value : Value) :
    (setFieldValue builder field value).row.isSome = builder.row.isSome := by
  unfold setFieldValue
  split
  · rfl
  · split
    · split <;> rfl
    · split
      · rfl
      · rename_i hrow
        rw [hrow]
        rfl

/-- A write to a field of the row is read there, and nowhere else. -/
theorem rowGet_setFieldValue {builder : Enriching} (hrow : builder.row.isSome = true)
    (target field : String) (value : Value) :
    rowGet (setFieldValue builder target value).row field =
      if isRowField field && target == field then some value else rowGet builder.row field := by
  obtain ⟨row,hsome⟩ := Option.isSome_iff_exists.mp hrow
  unfold setFieldValue isRowField rowGet
  by_cases hkey : target = "match_key"
  · rw [if_pos hkey]
    by_cases hfield : target = field
    · simp [← hfield, hkey]
    · simp [hfield]
  · rw [if_neg hkey]
    cases hsecret : isSecretTarget target with
    | true =>
      have hkept : (if value.isNull then builder else { builder with
          secretCandidates := Dict.set builder.secretCandidates (sinkFieldName target)
            value.pyStr }).row = builder.row := by
        split <;> rfl
      by_cases hfield : target = field
      · simp [← hfield, hsecret, hkept]
      · simp [hfield, hkept]
    | false =>
      rw [hsome]
      by_cases hfield : target = field
      · simp [← hfield, hkey, hsecret]
      · have hne := Dict.get?_set_ne row value hfield
        simpa [hfield] using hne

theorem getFieldValue_row {builder : Enriching} {field : String} (h : isRowField field = true) :
    getFieldValue builder field = (rowGet builder.row field).getD .null := by
  unfold isRowField at h
  simp only [Bool.and_eq_true, decide_eq_true_eq, Bool.not_eq_true'] at h
  unfold getFieldValue rowGet
  rw [if_neg h.1, h.2]
  cases builder.row <;> rfl

variable {core deps}

/-- What a turn writes to a field is the one value that its candidate gives, if any. -/
theorem Framed.written {turn : Turn D} (hframed : core.Framed deps turn)
    (hrow : turn.before.builder.row.isSome = true) (field : String) :
    (turn.written field = [] ∧
        rowGet turn.after.builder.row field = rowGet turn.before.builder.row field) ∨
      ∃ candidate, isRowField field = true ∧ core.Applies deps turn field candidate ∧
        turn.written field = [candidate.value] ∧
        rowGet turn.after.builder.row field = some candidate.value := by
  rcases hframed.effect with ⟨hsame,hnone⟩ | ⟨target,candidate,happlies⟩
  · refine .inl ⟨?_,by rw [hsame]⟩
    unfold Turn.written
    rw [hnone]
    split <;> rfl
  · have hread := rowGet_setFieldValue hrow target field candidate.value
    rw [← happlies.builder] at hread
    unfold Turn.written
    rw [happlies.reported, hread]
    cases hfield : isRowField field with
    | false => exact .inl ⟨rfl,rfl⟩
    | true =>
      by_cases htarget : target = field
      · subst htarget
        exact .inr ⟨candidate,rfl,happlies,by simp,by simp⟩
      · exact .inl ⟨by simp [htarget],by simp [htarget]⟩

/-! ## The run -/

theorem turns_cons {op : EnrichmentOperation D} {ops : List (EnrichmentOperation D)}
    {run next : RunState} {stop : Bool}
    (hstep : core.stepOperation deps core.context op run = .ok (next,stop)) :
    (core.shouldRunOperation op run.state.builder.errors = false ∧ next = run ∧ stop = false ∧
        core.turns deps (op::ops) run = core.turns deps ops run) ∨
      ∃ turn : Turn D, turn.op = op ∧ turn.before = run.state ∧
        next.state.builder.row = turn.after.builder.row ∧
        core.shouldRunOperation op run.state.builder.errors = true ∧
        ((turn.after = turn.before ∧ turn.report.applied = []) ∨
          ∃ field candidate, core.Applies deps turn field candidate) ∧
        core.turns deps (op::ops) run =
          turn::if stop then [] else core.turns deps ops next := by
  cases hruns : core.shouldRunOperation op run.state.builder.errors with
  | false =>
    have hskip := hstep
    unfold stepOperation at hskip
    rw [hruns] at hskip
    cases hskip
    refine .inl ⟨rfl,rfl,rfl,?_⟩
    rw [turns, hruns]
    rfl
  | true =>
    have hexecuted := hstep
    unfold stepOperation at hexecuted
    rw [if_pos hruns] at hexecuted
    obtain ⟨⟨after,report⟩,hexec,-⟩ := bind_ok_iff.mp hexecuted
    refine .inr ⟨⟨op,run.state,after,report⟩,rfl,rfl,core.stepOperation_row deps hruns hexec hstep,
      rfl,core.executeOperation_framed deps hexec,?_⟩
    rw [turns, if_pos hruns, hexec, hstep]

/-- Turns that follow one another: each starts from the row that the one before it left. -/
inductive RowsThrough (core : EnricherCore D) (deps : D) :
    Option Fields → List (Turn D) → Option Fields → Prop
  | nil (row : Option Fields) : RowsThrough core deps row [] row
  | cons {row final : Option Fields} {turn : Turn D} {rest : List (Turn D)}
      (framed : core.Framed deps turn) (starts : turn.before.builder.row = row)
      (rest_through : RowsThrough core deps turn.after.builder.row rest final) :
      RowsThrough core deps row (turn::rest) final

theorem runOperations_through {ops : List (EnrichmentOperation D)} {run final : RunState}
    (hops : ∀ op ∈ ops, op ∈ core.spec.operations)
    (hrun : core.runOperations deps core.context ops run = .ok final) :
    RowsThrough core deps run.state.builder.row (core.turns deps ops run)
      final.state.builder.row := by
  induction ops generalizing run with
  | nil =>
    cases hrun
    exact .nil _
  | cons op ops ih =>
    obtain ⟨⟨next,stop⟩,hstep,hrest⟩ := bind_ok_iff.mp hrun
    have hmem := hops op List.mem_cons_self
    have htail (h : core.runOperations deps core.context ops next = .ok final) :=
      ih (fun o ho => hops o (List.mem_cons_of_mem _ ho)) h
    rcases turns_cons hstep with ⟨-,rfl,rfl,hturns⟩ | ⟨turn,rfl,hbefore,hrow,hruns,heffect,hturns⟩
    · rw [hturns]
      exact htail hrest
    · rw [hturns]
      refine .cons ⟨hmem,by rw [hbefore]; exact hruns,heffect⟩ (by rw [hbefore]) ?_
      rw [← hrow]
      cases stop with
      | true =>
        cases hrest
        exact .nil _
      | false => exact htail hrest

/-- The values written to a field by a list of turns. -/
def writtenTo (turns : List (Turn D)) (field : String) : List Value :=
  turns.flatMap (·.written field)

theorem writtenTo_cons (turn : Turn D) (turns : List (Turn D)) (field : String) :
    writtenTo (turn::turns) field = turn.written field ++ writtenTo turns field :=
  List.flatMap_cons

theorem Framed.refused {turn : Turn D} (hframed : core.Framed deps turn)
    (hrefused : core.Refused deps turn) : turn.after = turn.before := by
  rcases hframed.effect with ⟨hsame,-⟩ | ⟨field,candidate,happlies⟩
  · exact hsame
  · obtain ⟨target,htarget,hissues⟩ := hrefused candidate happlies.decision
    rw [happlies.target, List.mem_singleton] at htarget
    rw [htarget] at hissues
    exact absurd happlies.valid hissues

theorem Framed.row_isSome {turn : Turn D} (hframed : core.Framed deps turn)
    (hrow : turn.before.builder.row.isSome = true) :
    turn.after.builder.row.isSome = true := by
  rcases hframed.effect with ⟨hsame,-⟩ | ⟨_,_,happlies⟩
  · rw [hsame, hrow]
  · rw [happlies.builder, row_setFieldValue_isSome, hrow]

/-- Each field ends with the last value written to it. -/
theorem RowsThrough.rowGet_eq {row final : Option Fields} {turns : List (Turn D)}
    (h : RowsThrough core deps row turns final) (hrow : row.isSome = true) (field : String) :
    rowGet final field = (writtenTo turns field).getLast?.or (rowGet row field) := by
  induction h with
  | nil => rfl
  | cons framed starts _ ih =>
    subst starts
    rw [ih (framed.row_isSome hrow), writtenTo_cons]
    rcases framed.written hrow field with ⟨hnone,hread⟩ | ⟨candidate,_,_,hone,hread⟩
    · rw [hnone, hread]
      rfl
    · rw [hone, hread, List.singleton_append, List.getLast?_cons]
      cases (writtenTo _ field).getLast? <;> rfl

theorem RowsThrough.framed {row final : Option Fields} {turns : List (Turn D)}
    (h : RowsThrough core deps row turns final) : ∀ turn ∈ turns, core.Framed deps turn := by
  induction h with
  | nil => exact List.forall_mem_nil _
  | cons framed _ _ ih => exact List.forall_mem_cons.mpr ⟨framed,ih⟩

/-- A policy that writes to empty fields only. -/
def Fills (mode : MergeMode) : Prop := mode = .fillOnlyIfEmpty ∨ mode = .overrideIfEmpty

theorem shouldApply_fills {mode : MergeMode} (h : Fills mode) (authoritative : List String)
    (current : Value) (candidate : CandidateValue) :
    MergeEngine.shouldApply authoritative current candidate mode = current.isBlank := by
  rcases h with rfl | rfl <;> rfl

/-- A field that is only filled is written while it is empty. -/
theorem RowsThrough.filled {row final : Option Fields} {turns : List (Turn D)}
    (h : RowsThrough core deps row turns final) (hrow : row.isSome = true) {field : String}
    (hfills : ∀ op ∈ core.spec.operations, field ∈ op.targets → Fills (core.modeOf op)) :
    (((rowGet row field).getD .null).isBlank = false → writtenTo turns field = []) ∧
      ∀ v ∈ (writtenTo turns field).dropLast, v.isBlank = true := by
  induction h with
  | nil => exact ⟨fun _ => rfl,List.forall_mem_nil _⟩
  | @cons _ _ turn rest framed starts _ ih =>
    subst starts
    obtain ⟨hempty,hblank⟩ := ih (framed.row_isSome hrow)
    rw [writtenTo_cons]
    rcases framed.written hrow field with ⟨hnone,hread⟩ | ⟨candidate,hfield,happlies,hone,hread⟩
    · rw [hnone, ← hread]
      exact ⟨hempty,hblank⟩
    · have hmode := hfills _ framed.mem (by rw [happlies.target]; exact List.mem_singleton_self _)
      have hcurrent := happlies.allowed
      rw [shouldApply_fills hmode, getFieldValue_row hfield] at hcurrent
      rw [hread] at hempty
      rw [hone, List.singleton_append]
      constructor
      · intro hfull
        rw [hcurrent] at hfull
        cases hfull
      · intro v hv
        by_cases hlast : writtenTo rest field = []
        · rw [hlast] at hv
          cases hv
        · rw [List.dropLast_cons_of_ne_nil hlast] at hv
          rcases List.mem_cons.mp hv with rfl | hv
          · -- a value that is not empty would have kept the later turns away
            by_contra hfull
            exact hlast (hempty (Bool.eq_false_of_not_eq_true hfull))
          · exact hblank v hv

theorem RowsThrough.never_written {row final : Option Fields} {turns : List (Turn D)}
    (h : RowsThrough core deps row turns final) (hrow : row.isSome = true) {field : String}
    (hnever : ∀ op ∈ core.spec.operations, field ∈ op.targets →
      core.modeOf op = .neverOverride) : writtenTo turns field = [] := by
  induction h with
  | nil => rfl
  | cons framed starts _ ih =>
    subst starts
    rw [writtenTo_cons, ih (framed.row_isSome hrow), List.append_nil]
    rcases framed.written hrow field with ⟨hnone,-⟩ | ⟨candidate,-,happlies,-⟩
    · exact hnone
    · have hallowed := happlies.allowed
      rw [hnever _ framed.mem (by rw [happlies.target]; exact List.mem_singleton_self _)] at hallowed
      cases hallowed

/-! ## The whole of enrich -/

theorem get?_clearSecretFields (row : Fields) (fields : List String) (field : String) :
    Dict.get? (clearSecretFields row fields) field =
      if field ∈ fields then (Dict.get? row field).map fun _ => .null
      else Dict.get? row field := by
  induction fields generalizing row with
  | nil => rfl
  | cons f fields ih =>
    have hstep : Dict.get? (if Dict.contains row f then Dict.set row f .null else row) field =
        if f = field then (Dict.get? row field).map fun _ => .null else Dict.get? row field := by
      unfold Dict.contains
      by_cases hf : f = field
      · subst hf
        cases hget : Dict.get? row f <;> simp [hget]
      · split <;> simp [Dict.get?_set_ne _ _ hf]
    show Dict.get? (clearSecretFields _ fields) field = _
    rw [ih, hstep]
    by_cases hf : f = field
    · subst hf
      by_cases hmem : f ∈ fields <;> simp [hmem, Option.map_map, Function.comp_def]
    · simp [hf, Ne.symm hf]

theorem rowGet_clearSecretFields (row : Option Fields) (fields : List String) (field : String) :
    rowGet (row.map fun row => clearSecretFields row fields) field =
      if field ∈ fields then (rowGet row field).map fun _ => .null else rowGet row field := by
  cases row with
  | none => simp [rowGet]
  | some row => exact get?_clearSecretFields row fields field

theorem rowGet_finish (run : RunState) (field : String) :
    rowGet (core.finish deps run).row field =
      if run.state.builder.matchKey.isSome = true ∧
          field ∈ Dict.keys run.state.builder.secretCandidates then
        (rowGet run.state.builder.row field).map fun _ => .null
      else rowGet run.state.builder.row field := by
  show rowGet (core.storeSecrets deps run.state.builder).row field = _
  generalize run.state.builder = builder
  unfold storeSecrets
  by_cases hnone : builder.secretCandidates = []
  · simp [hnone, Dict.keys]
  · rw [if_neg hnone]
    cases hkey : builder.matchKey with
    | none => simp [TransformResult.addErrors]
    | some matchKey =>
      simp only [Option.isSome_some, true_and]
      rw [rowGet_clearSecretFields]
      cases core.putMany with
      | none => rfl
      | some put =>
        dsimp only
        cases put deps core.dataset matchKey builder.secretCandidates core.runId <;> rfl

theorem startRun_row (result : Enriching) :
    (core.startRun result).state.builder.row = result.row := by
  unfold startRun startBuilder
  dsimp only
  split <;> rfl

/-- Enrichment changes a field of the row only by what its turns write, each of them an
operation that ran and that its policy allowed, and by clearing stored secrets. -/
theorem enrich_frame {result out : Enriching} (h : core.enrich deps result = .ok out)
    (field : String) :
    let written := writtenTo (core.turnsOf deps result) field
    let kept := written.getLast?.or (rowGet result.row field)
    (∀ turn ∈ core.turnsOf deps result, core.Framed deps turn ∧
        (core.Refused deps turn → turn.after = turn.before)) ∧
      (rowGet out.row field = if field ∈ core.clearedFields deps result then
          kept.map fun _ => .null else kept) ∧
      ((∀ op ∈ core.spec.operations, field ∈ op.targets → core.modeOf op = .neverOverride) →
        written = []) ∧
      ((∀ op ∈ core.spec.operations, field ∈ op.targets → Fills (core.modeOf op)) →
        (((rowGet result.row field).getD .null).isBlank = false → written = []) ∧
          ∀ v ∈ written.dropLast, v.isBlank = true) := by
  intro written kept
  cases hrow : result.row with
  | none =>
    have hturns : core.turnsOf deps result = [] := by rw [turnsOf, hrow]
    have hcleared : core.clearedFields deps result = [] := by rw [clearedFields, hrow]
    have hwritten : written = [] := by
      simp only [written, hturns]
      rfl
    have hout : out = result := by
      rw [enrich, hrow] at h
      exact (Except.ok.inj h).symm
    simp only [kept, hwritten, hturns, hcleared, hout, hrow]
    simp
  | some row =>
    have hturns : core.turnsOf deps result =
        core.turns deps core.spec.operations (core.startRun result) := by rw [turnsOf, hrow]
    rw [enrich, hrow] at h
    obtain ⟨run,hrun,hout⟩ := bind_ok_iff.mp h
    obtain rfl := Except.ok.inj hout
    have hthrough := runOperations_through (fun _ hop => hop) hrun
    rw [startRun_row, ← hturns] at hthrough
    have hsome : result.row.isSome = true := by rw [hrow]; rfl
    have hkept : rowGet run.state.builder.row field = kept := hthrough.rowGet_eq hsome field
    have hcleared : field ∈ core.clearedFields deps result ↔
        run.state.builder.matchKey.isSome = true ∧
          field ∈ Dict.keys run.state.builder.secretCandidates := by
      rw [clearedFields, hrow, hrun]
      cases hkey : run.state.builder.matchKey.isSome <;> simp [hkey]
    refine ⟨fun turn hturn => ⟨hthrough.framed turn hturn,(hthrough.framed turn hturn).refused⟩,?_,
      hthrough.never_written hsome,?_⟩
    · rw [rowGet_finish, hkept]
      simp only [hcleared]
    · rw [← hrow]
      exact hthrough.filled hsome

/-- A department that two directories know, the first with an empty name. -/
def deptLookup (name department : String) : EnrichmentOperation Unit where
  name := name
  opType := .lookup
  targets := ["dept"]
  providers := [fun _ _ _ _ => .ok [{
    field := "dept", value := .str department, source := name, priority := none
    confidence := none, evidence := none }]]

def deptCore : EnricherCore Unit where
  spec := { operations := [deptLookup "hr" "",deptLookup "payroll" "Sales"] }
  putMany := none
  dataset := "employees"
  catalog := []
  sinkSpec := none
  runId := none

def deptResult : Enriching where
  record := ⟨2,"line:2",[]⟩
  row := some [("dept",.null)]
  rowRef := none
  matchKey := none
  metadata := []
  secretCandidates := []
  errors := []
  warnings := []

theorem enrich_frame_dept : ∃ out, deptCore.enrich () deptResult = .ok out ∧
    rowGet out.row "dept" = if "dept" ∈ deptCore.clearedFields () deptResult then
        ((writtenTo (deptCore.turnsOf () deptResult) "dept").getLast?.or
          (rowGet deptResult.row "dept")).map fun _ => .null
      else (writtenTo (deptCore.turnsOf () deptResult) "dept").getLast?.or
        (rowGet deptResult.row "dept") := by
  obtain ⟨out,h⟩ : ∃ out, deptCore.enrich () deptResult = .ok out := ⟨_,rfl⟩
  exact ⟨out,h,(enrich_frame h "dept").2.1⟩

/-- Both operations only fill, and the field does not hold the first value applied to it. -/
theorem first_applied_replaced :
    (∀ op ∈ deptCore.spec.operations, Fills (deptCore.modeOf op)) ∧
      writtenTo (deptCore.turnsOf () deptResult) "dept" = [.str "",.str "Sales"] ∧
      ∃ out, deptCore.enrich () deptResult = .ok out ∧
        rowGet out.row "dept" = some (.str "Sales") := by
  refine ⟨?_,by decide,⟨_,rfl,by decide⟩⟩
  intro op hop
  simp only [deptCore, List.mem_cons, List.not_mem_nil, or_false] at hop
  rcases hop with rfl | rfl <;> exact .inl rfl

end EnricherCore
end NexusEtl
