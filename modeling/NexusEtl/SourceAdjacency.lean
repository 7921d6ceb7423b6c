import NexusEtl.Anchoring
import NexusEtl.CsvSource
import NexusEtl.EnrichModels

/-!
# The source adjacency and the source records

Two readers go over one CSV file. Polars takes some texts of a cell for nothing and
then strips it; the record source strips first and takes the word null in any case
for nothing. The verdicts on the nodes of the first are applied to the rows of the
second, by the text of the node id.
-/

set_option autoImplicit false

namespace NexusEtl
open NexusEtl.Library

/-- The cell of a row in a column; a short row has none. -/
def cellAt (names row : List String) (name : String) : Option String := row[names.idxOf name]?

def SourceAnchoringReason.text : SourceAnchoringReason → String
  | .missingParent => "missing_parent"
  | .unanchoredSubtree => "unanchored_subtree"
  | .cycle => "cycle"

/-! ## The readers -/

structure PolarsSourceAdjacencyReader where
  nodeIdField : String
  parentIdField : String
  labelField : String
  deriving DecidableEq, Repr

namespace PolarsSourceAdjacencyReader

def nullValues : List String := ["", "null", "NULL"]

/-- A cell under `null_values` and `strip_chars`. -/
def cellValue : Option String → Option String
  | none => none
  | some text => if text ∈ nullValues then none else some (Text.strip text)

/-- `_optional_str` -/
def optionalStr : Option String → Option String
  | none => none
  | some text => if Text.strip text = "" then none else some (Text.strip text)

variable (reader : PolarsSourceAdjacencyReader)

/-- The node of a row, unless the filter on the node id takes the row away. -/
def nodeOf (names row : List String) : Option SourceAdjacencyNode :=
  match cellValue (cellAt names row reader.nodeIdField) with
  | none => none
  | some id =>
    if id = "" then none
    else some ⟨id,optionalStr (cellValue (cellAt names row reader.parentIdField)),
      (cellValue (cellAt names row reader.labelField)).getD ""⟩

def missing (names : List String) : List String :=
  sortTexts (([reader.nodeIdField,reader.parentIdField,reader.labelField].eraseDups).filter
    (· ∉ names))

/-- `read_nodes`: the columns, the filter on the node id, and each row once. -/
def readNodes (names : List String) (rows : List (List String)) :
    Except PyException (List SourceAdjacencyNode) :=
  if reader.missing names ≠ [] then
    .error ⟨"ValueError","source topology adjacency columns are missing: " ++
      Text.join ", " (reader.missing names)⟩
  else .ok ((rows.filterMap (reader.nodeOf names)).eraseDups)

end PolarsSourceAdjacencyReader

/-- The text of a value of a source record. -/
def recordText : Value → Option String
  | .str s => some s
  | _ => none

namespace CsvRecordSource

variable (reader : PolarsSourceAdjacencyReader)

/-- The node id and the parent id of the records whose node id is there. -/
def recordPairs (records : List SourceRecord) : List (String × Option String) :=
  records.filterMap fun record =>
    (recordText (Fields.read record.values reader.nodeIdField)).map fun id =>
      (id,recordText (Fields.read record.values reader.parentIdField))

end CsvRecordSource

/-! ## The stage -/

inductive OnUnanchored
  | skip | warn | hardError
  deriving DecidableEq, Repr

structure SourceTopologyValidationState where
  nodeIdField : String
  dropped : Dict String SourceAnchoringVerdict
  onUnanchored : OnUnanchored
  deriving DecidableEq, Repr

namespace SourceTopologyFilterStage

variable (catalog : ErrorCatalog) (validation : SourceTopologyValidationState)

/-- `_node_id` -/
def nodeId (row : Fields) (field : String) : Option String :=
  match Fields.read row field with
  | .null => none
  | value => if Text.strip value.pyStr = "" then none else some (Text.strip value.pyStr)

def detailsOf (id : String) (verdict : SourceAnchoringVerdict) : Fields :=
  [("node_id",.str id),("reason",.str verdict.reason.text),
    ("broken_at_parent_id",optStr verdict.brokenAtParentId)]

/-- What becomes of a result whose node was dropped. -/
def mark (result : TransformResult Fields) (id : String) (verdict : SourceAnchoringVerdict) :
    TransformResult Fields :=
  let message := "Source topology node '" ++ id ++ "' is not anchored"
  match validation.onUnanchored with
  | .warn => { result with warnings := result.warnings ++ [diagWarning catalog .topologyValidate
      "TOPOLOGY_SOURCE_UNANCHORED" (some validation.nodeIdField) (some message) result.rowRef
      (some (detailsOf id verdict)) none] }
  | _ => result.dropRow [diagError catalog .topologyValidate "TOPOLOGY_SOURCE_UNANCHORED"
      (some validation.nodeIdField) (some message) result.rowRef (some (detailsOf id verdict))]

/-- A result, given the node that stands for its row. -/
def judge (node? : Option String) (result : TransformResult Fields) : TransformResult Fields :=
  match node? with
  | none => result
  | some id => match Dict.get? validation.dropped id with
    | none => result
    | some verdict => mark catalog validation result id verdict

/-- The body of the loop of `run`. -/
def step (result : TransformResult Fields) : TransformResult Fields :=
  match result.row with
  | none => result
  | some row => judge catalog validation (nodeId row validation.nodeIdField) result

def run (validation? : Option SourceTopologyValidationState)
    (source : List (TransformResult Fields)) : List (TransformResult Fields) :=
  match validation? with
  | none => source
  | some validation => if validation.dropped = [] then source
      else source.map (step catalog validation)

theorem judge_nil {validation : SourceTopologyValidationState} (h : validation.dropped = [])
    (node? : Option String) (result : TransformResult Fields) :
    judge catalog validation node? result = result := by
  cases node? with
  | none => rfl
  | some id => rw [judge, h, Dict.get?_nil]

/-- With nothing dropped the loop would change nothing either. -/
theorem run_eq_map (source : List (TransformResult Fields)) :
    run catalog (some validation) source = source.map (step catalog validation) := by
  rw [run]
  split
  · rename_i h
    have hstep : step catalog validation = id := by
      funext result
      rw [step]
      cases result.row with
      | none => rfl
      | some row => exact judge_nil catalog h _ result
    rw [hstep, List.map_id]
  · rfl

end SourceTopologyFilterStage

/-! ## Rows of both readers -/

namespace CsvRecordSource

variable {names : List String}

/-- A short row is filled up. -/
def filled : List String → List String → Dict String (Option String)
  | [], _ => []
  | name::names, row => (name,row.head?)::filled names row.tail

theorem filled_eq (names row : List String) (h : row.length ≤ names.length) :
    filled names row = ((names.zip row).map fun entry => (entry.1,some entry.2)) ++
      (names.drop row.length).map fun name => (name,none) := by
  induction names generalizing row with
  | nil =>
    obtain rfl := List.length_eq_zero_iff.mp (Nat.le_zero.mp h)
    rfl
  | cons name names ih =>
    cases row with
    | nil => simpa [filled] using ih [] (Nat.zero_le _)
    | cons value row => simpa [filled] using ih row (Nat.le_of_succ_le_succ h)

theorem keys_filled (names row : List String) : Dict.keys (filled names row) = names := by
  induction names generalizing row with
  | nil => rfl
  | cons name names ih => exact congrArg (name :: ·) (ih row.tail)

theorem get?_filled {name : String} (names row : List String) (h : name ∈ names) :
    Dict.get? (filled names row) name = some (cellAt names row name) := by
  induction names generalizing row with
  | nil => cases h
  | cons other names ih =>
    by_cases heq : other = name
    · subst heq
      cases row <;> simp [filled, Dict.get?, cellAt]
    · have hmem := (List.mem_cons.mp h).resolve_left (Ne.symm heq)
      rw [filled, Dict.get?, if_neg heq, ih row.tail hmem, cellAt, cellAt,
        List.idxOf_cons_ne _ heq]
      cases row <;> simp

theorem dictRow_filled (hnames : names.Nodup) {row : List String}
    (h : row.length ≤ names.length) : dictRow names row = (filled names row,none) := by
  have hkeys : (names.zip row).map Prod.fst ++ names.drop row.length = names := by
    have hfilled := congrArg Dict.keys (filled_eq names row h)
    rw [keys_filled] at hfilled
    simpa [Dict.keys, Function.comp_def] using hfilled.symm
  have hnodup : ((names.zip row).map Prod.fst ++ names.drop row.length).Nodup := by rwa [hkeys]
  have hzip : (names.zip row).foldl (fun (d : Dict String (Option String)) entry =>
      Dict.set d entry.1 (some entry.2)) [] =
        (names.zip row).map fun entry => (entry.1,some entry.2) := by
    rw [Dict.foldl_set_eq_append Prod.fst (fun entry => some entry.2) (names.zip row) []
      (List.nodup_append.mp hnodup).1, List.nil_append]
  have hrest := Dict.foldl_set_eq_append (fun name : String => name)
    (fun _ => (none : Option String)) (names.drop row.length)
    ((names.zip row).map fun entry => (entry.1,some entry.2)) (by
      simpa [Dict.keys, Function.comp_def] using hnodup)
  unfold dictRow
  rw [hzip, if_neg (Nat.not_lt.mpr h), filled_eq names row h, hrest]

/-- The values of a row that is no longer than the header. -/
theorem mem_records {rows : List (List String)} (hnames : names.Nodup)
    (hlength : ∀ row ∈ rows, row.length ≤ names.length) (lineNo : Int) (values : Fields) :
    (∃ record ∈ (headerLoop names none lineNo rows).records, record.values = values) ↔
      ∃ row ∈ rows, row ≠ [] ∧
        values = (filled names row).map fun entry => (entry.1,parseNull entry.2) := by
  induction rows generalizing lineNo with
  | nil => simp [headerLoop]
  | cons row rest ih =>
    have hrest := fun lineNo => ih (fun r hr => hlength r (List.mem_cons_of_mem _ hr)) lineNo
    by_cases hrow : row = []
    · subst hrow
      rw [headerLoop_blank, hrest]
      simp
    · have hle := hlength row List.mem_cons_self
      have hdict := dictRow_filled hnames hle
      obtain ⟨name,others,rfl⟩ : ∃ name others, names = name::others := by
        cases names with
        | nil => exact absurd (List.length_eq_zero_iff.mp (Nat.le_zero.mp hle)) hrow
        | cons name others => exact ⟨name,others,rfl⟩
      have hloop : headerLoop (name::others) none lineNo (row::rest) =
          Reading.cons ⟨lineNo,lineId lineNo,(filled (name::others) row).map fun entry =>
            (entry.1,parseNull entry.2)⟩ (headerLoop (name::others) none (lineNo+1) rest) := by
        rw [headerLoop, if_neg hrow, hdict]
        rfl
      rw [hloop]
      simp only [Reading.cons, List.exists_mem_cons_iff, hrest]
      constructor
      · rintro (h | h)
        · exact .inl ⟨hrow,h.symm⟩
        · exact .inr h
      · rintro (h | h)
        · exact .inl h.2.symm
        · exact .inr h

theorem read_filled {name : String} (row : List String) (h : name ∈ names) :
    Fields.read ((filled names row).map fun entry => (entry.1,parseNull entry.2)) name =
      parseNull (cellAt names row name) := by
  rw [Fields.read, Dict.get?_mapValues, get?_filled names row h]
  rfl

end CsvRecordSource

/-! ## Where the readers part -/

/-- The word null, but not as Polars knows it. -/
def Disguised (cell : Option String) : Prop :=
  ∃ text, cell = some text ∧ Text.lower (Text.strip text) = "null" ∧
    text ∉ PolarsSourceAdjacencyReader.nullValues

instance : (cell : Option String) → Decidable (Disguised cell)
  | none => isFalse nofun
  | some text => decidable_of_iff (Text.lower (Text.strip text) = "null" ∧
      text ∉ PolarsSourceAdjacencyReader.nullValues)
    ⟨fun h => ⟨text,rfl,h⟩,fun ⟨_,heq,h⟩ => Option.some.inj heq ▸ h⟩

section Cells

open PolarsSourceAdjacencyReader

theorem filter_ne_empty (t : String) :
    (some t).filter (· ≠ "") = if t = "" then none else some t := by
  by_cases h : t = ""
  · subst h
    rfl
  · simp [Option.filter, h]

theorem recordText_parseNull (cell : Option String) : recordText (parseNull cell) =
    cell.bind fun text => if Text.strip text = "" ∨ Text.lower (Text.strip text) = "null" then none
      else some (Text.strip text) := by
  cases cell with
  | none => rfl
  | some text =>
    rw [parseNull, Option.bind_some]
    split <;> rfl

theorem strip_of_mem_nullValues {text : String} (h : text ∈ nullValues) :
    Text.strip text = "" ∨ Text.lower (Text.strip text) = "null" := by
  have hall : ∀ t ∈ nullValues, Text.strip t = "" ∨ Text.lower (Text.strip t) = "null" := by
    decide
  exact hall text h

/-- Undisguised cells read alike, but for the empty text. -/
theorem recordText_of_not_disguised {cell : Option String} (h : ¬ Disguised cell) :
    recordText (parseNull cell) = (cellValue cell).filter (· ≠ "") := by
  rw [recordText_parseNull]
  cases cell with
  | none => rfl
  | some text =>
    rw [Option.bind_some, cellValue]
    by_cases hmem : text ∈ nullValues
    · rw [if_pos hmem, if_pos (strip_of_mem_nullValues hmem)]
      rfl
    · have hword : Text.lower (Text.strip text) ≠ "null" := fun hword => h ⟨text,rfl,hword,hmem⟩
      rw [if_neg hmem, filter_ne_empty]
      simp [hword]

theorem cellValue_disguised {cell : Option String} (h : Disguised cell) :
    ∃ t, cellValue cell = some t ∧ Text.lower t = "null" := by
  obtain ⟨text,rfl,hword,hmem⟩ := h
  exact ⟨Text.strip text,if_neg hmem,hword⟩

theorem recordText_ne_null {cell : Option String} {t : String}
    (h : recordText (parseNull cell) = some t) : Text.lower t ≠ "null" := by
  rw [recordText_parseNull, Option.bind_eq_some_iff] at h
  obtain ⟨text,-,h⟩ := h
  split at h
  · cases h
  · rename_i hne
    obtain rfl := Option.some.inj h
    exact fun hword => hne (.inr hword)

theorem strip_cellValue {cell : Option String} {t : String} (h : cellValue cell = some t) :
    Text.strip t = t := by
  cases cell with
  | none => cases h
  | some text =>
    rw [cellValue] at h
    split at h
    · cases h
    · obtain rfl := Option.some.inj h
      exact Text.strip_strip text

theorem optionalStr_cellValue (cell : Option String) :
    optionalStr (cellValue cell) = (cellValue cell).filter (· ≠ "") := by
  cases h : cellValue cell with
  | none => rfl
  | some t =>
    rw [optionalStr, strip_cellValue h, filter_ne_empty]

end Cells

/-! ## The pairs of a row -/

namespace PolarsSourceAdjacencyReader

variable (reader : PolarsSourceAdjacencyReader)

def nodePair (node : SourceAdjacencyNode) : String × Option String := (node.nodeId,node.parentId)

/-- The pair that the pipeline reads in a row. -/
def recordPair (names row : List String) : Option (String × Option String) :=
  (recordText (parseNull (cellAt names row reader.nodeIdField))).map fun id =>
    (id,recordText (parseNull (cellAt names row reader.parentIdField)))

/-- Neither cell of the row, as far as it counts, is a disguised null. -/
def Plain (names row : List String) : Prop :=
  ¬ Disguised (cellAt names row reader.nodeIdField) ∧
    (reader.nodeOf names row ≠ none → ¬ Disguised (cellAt names row reader.parentIdField))

instance (names row : List String) : Decidable (reader.Plain names row) :=
  inferInstanceAs (Decidable (_ ∧ _))

variable {reader} {names : List String}

theorem nodeOf_eq (row : List String) : reader.nodeOf names row =
    ((cellValue (cellAt names row reader.nodeIdField)).filter (· ≠ "")).map fun id =>
      ⟨id,optionalStr (cellValue (cellAt names row reader.parentIdField)),
        (cellValue (cellAt names row reader.labelField)).getD ""⟩ := by
  rw [nodeOf]
  cases cellValue (cellAt names row reader.nodeIdField) with
  | none => rfl
  | some id =>
    rw [filter_ne_empty]
    dsimp only
    split <;> rfl

/-- A plain row gives both readers the same pair. -/
theorem Plain.pair {row : List String} (h : reader.Plain names row) :
    (reader.nodeOf names row).map nodePair = reader.recordPair names row := by
  obtain ⟨hnode,hparent⟩ := h
  rw [recordPair, recordText_of_not_disguised hnode]
  rw [nodeOf_eq] at hparent ⊢
  cases hid : (cellValue (cellAt names row reader.nodeIdField)).filter (· ≠ "") with
  | none => rfl
  | some id =>
    rw [hid] at hparent
    rw [recordText_of_not_disguised (hparent (by simp)), ← optionalStr_cellValue]
    rfl

/-- The pipeline reads no null word, whatever its case. -/
theorem recordPair_ne_null {row : List String} {pair : String × Option String}
    (h : reader.recordPair names row = some pair) :
    Text.lower pair.1 ≠ "null" ∧ ∀ parent, pair.2 = some parent → Text.lower parent ≠ "null" := by
  rw [recordPair, Option.map_eq_some_iff] at h
  obtain ⟨id,hid,rfl⟩ := h
  exact ⟨recordText_ne_null hid,fun parent hparent => recordText_ne_null hparent⟩

/-- A row that is not plain gives Polars a node or a parent by the name of null. -/
theorem nodePair_of_not_plain {row : List String} (h : ¬ reader.Plain names row) :
    ∃ node, reader.nodeOf names row = some node ∧ (Text.lower node.nodeId = "null" ∨
      ∃ parent, node.parentId = some parent ∧ Text.lower parent = "null") := by
  by_cases hnode : Disguised (cellAt names row reader.nodeIdField)
  · obtain ⟨id,hid,hword⟩ := cellValue_disguised hnode
    have hne : id ≠ "" := by
      rintro rfl
      exact absurd hword (by decide)
    have hnodeOf := @nodeOf_eq reader names row
    rw [hid, filter_ne_empty, if_neg hne] at hnodeOf
    exact ⟨_,hnodeOf,.inl hword⟩
  · simp only [Plain, hnode, not_false_eq_true, true_and, not_forall, not_not] at h
    obtain ⟨hsome,hparent⟩ := h
    obtain ⟨node,hnodeOf⟩ := Option.ne_none_iff_exists'.mp hsome
    obtain ⟨parent,hvalue,hword⟩ := cellValue_disguised hparent
    have hne : parent ≠ "" := by
      rintro rfl
      exact absurd hword (by decide)
    refine ⟨node,hnodeOf,.inr ⟨parent,?_,hword⟩⟩
    rw [nodeOf_eq, Option.map_eq_some_iff] at hnodeOf
    obtain ⟨id,-,rfl⟩ := hnodeOf
    rw [optionalStr_cellValue, hvalue, filter_ne_empty, if_neg hne]

theorem mem_nodes {rows : List (List String)} {nodes : List SourceAdjacencyNode}
    (h : reader.readNodes names rows = .ok nodes) (node : SourceAdjacencyNode) :
    node ∈ nodes ↔ ∃ row ∈ rows, reader.nodeOf names row = some node := by
  rw [readNodes] at h
  split at h
  · cases h
  · obtain rfl := Except.ok.inj h
    rw [List.mem_eraseDups, List.mem_filterMap]

/-- The columns of the reader are there. -/
theorem mem_columns {rows : List (List String)} {nodes : List SourceAdjacencyNode}
    (h : reader.readNodes names rows = .ok nodes) :
    reader.nodeIdField ∈ names ∧ reader.parentIdField ∈ names := by
  rw [readNodes] at h
  split at h
  · cases h
  · rename_i hmissing
    have hnone : ∀ name ∈ [reader.nodeIdField,reader.parentIdField,reader.labelField],
        name ∈ names := by
      intro name hname
      by_contra hnot
      have hmem : name ∈ reader.missing names := (List.mem_insertionSort _).mpr
        (List.mem_filter.mpr ⟨List.mem_eraseDups.mpr hname,by simpa using hnot⟩)
      exact absurd hmem (by simp [not_not.mp hmissing])
    exact ⟨hnone _ (by simp),hnone _ (by simp)⟩

end PolarsSourceAdjacencyReader

/-- The pairs of the records are those of the rows. -/
theorem mem_recordPairs {reader : PolarsSourceAdjacencyReader} {names : List String}
    {rows : List (List String)} (hnames : names.Nodup)
    (hlength : ∀ row ∈ rows, row.length ≤ names.length)
    (hcolumns : reader.nodeIdField ∈ names ∧ reader.parentIdField ∈ names)
    (pair : String × Option String) :
    pair ∈ CsvRecordSource.recordPairs reader
        (CsvRecordSource.headerLoop names none 2 rows).records ↔
      ∃ row ∈ rows, reader.recordPair names row = some pair := by
  have hvalues := fun values => CsvRecordSource.mem_records hnames hlength 2 values
  rw [CsvRecordSource.recordPairs, List.mem_filterMap]
  constructor
  · rintro ⟨record,hrecord,hpair⟩
    obtain ⟨row,hrow,-,hread⟩ := (hvalues record.values).mp ⟨record,hrecord,rfl⟩
    rw [hread, CsvRecordSource.read_filled row hcolumns.1,
      CsvRecordSource.read_filled row hcolumns.2] at hpair
    exact ⟨row,hrow,hpair⟩
  · rintro ⟨row,hrow,hpair⟩
    have hne : row ≠ [] := by
      rintro rfl
      cases hpair
    obtain ⟨record,hrecord,hread⟩ := (hvalues _).mpr ⟨row,hrow,hne,rfl⟩
    refine ⟨record,hrecord,?_⟩
    rw [hread, CsvRecordSource.read_filled row hcolumns.1,
      CsvRecordSource.read_filled row hcolumns.2]
    exact hpair

/-! ## Agreement -/

/-- The mapping has copied the node id of the row. -/
def Carries (reader : PolarsSourceAdjacencyReader) (names : List String)
    (validation : SourceTopologyValidationState) (row : List String)
    (result : TransformResult Fields) : Prop :=
  ∀ mapped, result.row = some mapped →
    Fields.read mapped validation.nodeIdField = parseNull (cellAt names row reader.nodeIdField)

/-- The result of a row as the verdict on its source node asks for it. -/
def judged (reader : PolarsSourceAdjacencyReader) (names : List String) (catalog : ErrorCatalog)
    (validation : SourceTopologyValidationState)
    (entry : List String × TransformResult Fields) : TransformResult Fields :=
  match entry.2.row with
  | none => entry.2
  | some _ => SourceTopologyFilterStage.judge catalog validation
      ((reader.nodeOf names entry.1).map SourceAdjacencyNode.nodeId) entry.2

/-- Both readers give the same pairs, and the stage marks the rows whose node was dropped. -/
structure ReadersAgree (reader : PolarsSourceAdjacencyReader) (names : List String)
    (rows : List (List String)) (nodes : List SourceAdjacencyNode) : Prop where
  pairs : ∀ pair, pair ∈ nodes.map PolarsSourceAdjacencyReader.nodePair ↔
    pair ∈ CsvRecordSource.recordPairs reader (CsvRecordSource.headerLoop names none 2 rows).records
  filtered : ∀ (catalog : ErrorCatalog) (validation : SourceTopologyValidationState)
    (stream : List (List String × TransformResult Fields)),
    (∀ entry ∈ stream, entry.1 ∈ rows ∧ Carries reader names validation entry.1 entry.2) →
      SourceTopologyFilterStage.run catalog (some validation) (stream.map Prod.snd) =
        stream.map (judged reader names catalog validation)

open PolarsSourceAdjacencyReader

/-- The stage knows the node of a plain row. -/
theorem nodeId_eq {reader : PolarsSourceAdjacencyReader} {names row : List String}
    (h : reader.Plain names row) {mapped : Fields} {field : String}
    (hread : Fields.read mapped field = parseNull (cellAt names row reader.nodeIdField)) :
    SourceTopologyFilterStage.nodeId mapped field =
      (reader.nodeOf names row).map SourceAdjacencyNode.nodeId := by
  have hnode : (reader.nodeOf names row).map SourceAdjacencyNode.nodeId =
      recordText (parseNull (cellAt names row reader.nodeIdField)) := by
    have hpair := congrArg (Option.map Prod.fst) h.pair
    rw [recordPair, Option.map_map, Option.map_map] at hpair
    simpa [Function.comp_def, nodePair] using hpair
  rw [hnode, SourceTopologyFilterStage.nodeId, hread]
  cases hcell : cellAt names row reader.nodeIdField with
  | none => rfl
  | some text =>
    rw [parseNull]
    by_cases hnull : Text.strip text = "" ∨ Text.lower (Text.strip text) = "null"
    · rw [if_pos hnull]
      rfl
    · rw [if_neg hnull]
      simp [Text.strip_strip, (not_or.mp hnull).1, recordText]

/-- The two readers agree on a table if and only if no cell of a node id, and no cell of a parent
id beside a node id, is the word null in a form that Polars does not take for nothing. -/
theorem readers_agree_iff {reader : PolarsSourceAdjacencyReader} {names : List String}
    {rows : List (List String)} {nodes : List SourceAdjacencyNode} (hnames : names.Nodup)
    (hlength : ∀ row ∈ rows, row.length ≤ names.length)
    (hread : reader.readNodes names rows = .ok nodes) :
    ReadersAgree reader names rows nodes ↔ ∀ row ∈ rows, reader.Plain names row := by
  have hcolumns := mem_columns hread
  have hrecords := mem_recordPairs hnames hlength hcolumns
  constructor
  · intro h row hrow
    by_contra hplain
    obtain ⟨node,hnode,hword⟩ := nodePair_of_not_plain hplain
    have hmem : nodePair node ∈ nodes.map nodePair :=
      List.mem_map_of_mem ((mem_nodes hread node).mpr ⟨row,hrow,hnode⟩)
    obtain ⟨other,-,hother⟩ := (hrecords _).mp ((h.pairs _).mp hmem)
    obtain ⟨hid,hparent⟩ := recordPair_ne_null hother
    rcases hword with hword | ⟨parent,hsome,hword⟩
    · exact hid hword
    · exact hparent parent hsome hword
  · intro h
    constructor
    · intro pair
      rw [hrecords, List.mem_map]
      constructor
      · rintro ⟨node,hnode,rfl⟩
        obtain ⟨row,hrow,hnodeOf⟩ := (mem_nodes hread node).mp hnode
        exact ⟨row,hrow,by rw [← (h row hrow).pair, hnodeOf]; rfl⟩
      · rintro ⟨row,hrow,hpair⟩
        rw [← (h row hrow).pair, Option.map_eq_some_iff] at hpair
        obtain ⟨node,hnodeOf,rfl⟩ := hpair
        exact ⟨node,(mem_nodes hread node).mpr ⟨row,hrow,hnodeOf⟩,rfl⟩
    · intro catalog validation stream hstream
      rw [SourceTopologyFilterStage.run_eq_map, List.map_map]
      apply List.map_congr_left
      intro entry hentry
      obtain ⟨hrow,hcarries⟩ := hstream entry hentry
      rw [Function.comp_apply, SourceTopologyFilterStage.step, judged]
      cases hmapped : entry.2.row with
      | none => rfl
      | some mapped =>
        dsimp only
        rw [nodeId_eq (h _ hrow) (hcarries mapped hmapped)]

def unitReader : PolarsSourceAdjacencyReader := ⟨"id","parent_id","name"⟩

def unitColumns : List String := ["id", "parent_id", "name"]

/-- A parent written as `Null` is a node of its own for one reader, and nothing for the other. -/
theorem null_in_another_case :
    unitReader.readNodes unitColumns [["1","Null","Head Office"]] =
      .ok [⟨"1",some "Null","Head Office"⟩] ∧
    CsvRecordSource.recordPairs unitReader
      (CsvRecordSource.headerLoop unitColumns none 2 [["1","Null","Head Office"]]).records =
        [("1",none)] ∧
    ¬ ∀ (reader : PolarsSourceAdjacencyReader) (names : List String) (rows : List (List String))
      (nodes : List SourceAdjacencyNode), names.Nodup → (∀ row ∈ rows, row.length ≤ names.length) →
        reader.readNodes names rows = .ok nodes → ReadersAgree reader names rows nodes := by
  have hnodes : unitReader.readNodes unitColumns [["1","Null","Head Office"]] =
      .ok [⟨"1",some "Null","Head Office"⟩] := by decide
  have hpairs : CsvRecordSource.recordPairs unitReader
      (CsvRecordSource.headerLoop unitColumns none 2 [["1","Null","Head Office"]]).records =
        [("1",none)] := by decide
  refine ⟨hnodes,hpairs,fun h => ?_⟩
  have hagree := h unitReader unitColumns _ _ (by decide) (by decide) hnodes
  have hmem := (hagree.pairs ("1",some "Null")).mp (by decide)
  rw [hpairs] at hmem
  exact absurd hmem (by decide)

theorem readers_agree_iff_units :
    ReadersAgree unitReader unitColumns [["1","null","Head Office"],[" 2 "," 1","Branch"],["3"]]
        [⟨"1",none,"Head Office"⟩,⟨"2",some "1","Branch"⟩,⟨"3",none,""⟩] ∧
      ¬ ReadersAgree unitReader unitColumns [["1"," null","Head Office"]]
        [⟨"1",some "null","Head Office"⟩] :=
  ⟨(readers_agree_iff (by decide) (by decide) (by decide)).mpr (by decide),
    fun h => absurd ((readers_agree_iff (by decide) (by decide) (by decide)).mp h) (by decide)⟩

end NexusEtl
