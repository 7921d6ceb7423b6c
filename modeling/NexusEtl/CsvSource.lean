import NexusEtl.TransformResult
import NexusEtl.Library.Csv

/-!
# The CSV source with and without a header

With a header the rows are read as dictionaries, which skip blank rows without
counting them and fill short rows. Without one they are counted as they come
and a short row is refused. The two modes agree on a text exactly when neither
difference shows: it fails anyway, or its rows are of one length and no blank
row stands between them.
-/

set_option autoImplicit false

namespace NexusEtl
open NexusEtl.Library NexusEtl.Library.Csv

def parseNull (value : Option String) : Value :=
  match value with
  | none => .null
  | some text =>
    let trimmed := Text.strip text
    if trimmed = "" ∨ Text.lower trimmed = "null" then .null else .str trimmed

def lineId (lineNo : Int) : String := "line:" ++ toString lineNo

/-- The records that a source has given, and the exception by which it ended. -/
structure Reading where
  records : List SourceRecord
  failure : Option PyException
  deriving DecidableEq, Repr

def Reading.cons (record : SourceRecord) (rest : Reading) : Reading :=
  { rest with records := record::rest.records }

/-- The source was read to its end. -/
def Reading.Accepted (reading : Reading) : Prop := reading.failure = none

instance (reading : Reading) : Decidable reading.Accepted :=
  inferInstanceAs (Decidable (reading.failure = none))

namespace CsvRecordSource

def formatError (text : String) : PyException := ⟨"CsvFormatError",text⟩

def columnCountError (lineNo : Int) (expected got : Nat) : PyException :=
  formatError ("Invalid column count at line " ++ toString lineNo ++ ": expected " ++
    toString expected ++ ", got " ++ toString got)

/-- A row of `csv.DictReader`, and what it holds beyond the field names. -/
def dictRow (names row : List String) : Dict String (Option String) × Option (List String) :=
  let zipped : Dict String (Option String) :=
    (names.zip row).foldl (fun d entry => Dict.set d entry.1 (some entry.2)) []
  if names.length < row.length then (zipped,some (row.drop names.length))
  else ((names.drop row.length).foldl (fun d name => Dict.set d name none) zipped,none)

/-- The loop over the dictionary reader, which skips blank rows before they are counted. -/
def headerLoop (names : List String) (failure : Option PyException) :
    Int → List (List String) → Reading
  | _, [] => ⟨[],failure⟩
  | lineNo, row::rest =>
    if row = [] then headerLoop names failure lineNo rest
    else match dictRow names row with
      | ([],none) => headerLoop names failure (lineNo+1) rest
      | (_,some extra) =>
        ⟨[],some (columnCountError lineNo names.length (names.length + extra.length))⟩
      | (values,none) => Reading.cons
          ⟨lineNo,lineId lineNo,values.map fun entry => (entry.1,parseNull entry.2)⟩
          (headerLoop names failure (lineNo+1) rest)

def columnValues (row : List String) : Fields :=
  row.zipIdx.map fun (value,idx) => ("col_" ++ toString idx,parseNull (some value))

/-- The loop over the plain reader; `expected` is the length of the first row. -/
def plainLoop (failure : Option PyException) :
    Int → Option Nat → List (List String) → Reading
  | _, _, [] => ⟨[],failure⟩
  | lineNo, expected, row::rest =>
    if row = [] then plainLoop failure (lineNo+1) expected rest
    else if row.length ≠ expected.getD row.length then
      ⟨[],some (columnCountError lineNo (expected.getD row.length) row.length)⟩
    else Reading.cons ⟨lineNo,lineId lineNo,columnValues row⟩
      (plainLoop failure (lineNo+1) (some (expected.getD row.length)) rest)

def csvError (message : String) : PyException := ⟨"Error",message⟩

/-- `__iter__` of a source that has a header. -/
def readWithHeader (dialect : Dialect) (text : String) : Reading :=
  match rows dialect text with
  | ([],none) => ⟨[],some (formatError "Missing header in source CSV")⟩
  | ([],some message) => ⟨[],some (csvError message)⟩
  | (names::rest,failure) => headerLoop names (failure.map csvError) 2 rest

/-- `__iter__` of a source without a header. -/
def readPlain (dialect : Dialect) (text : String) : Reading :=
  plainLoop ((rows dialect text).2.map csvError) 1 none (rows dialect text).1

/-! ## What the modes accept -/

variable {names : List String} {failure : Option PyException}

theorem dictRow_rest (names row : List String) :
    (dictRow names row).2 = if names.length < row.length then some (row.drop names.length)
      else none := by
  unfold dictRow
  split <;> rfl

/-- With a header a text is read to its end when no row is longer than the header. -/
theorem headerLoop_failure (lineNo : Int) (rows : List (List String)) :
    (headerLoop names failure lineNo rows).failure = none ↔
      failure = none ∧ ∀ row ∈ rows, row.length ≤ names.length := by
  induction rows generalizing lineNo with
  | nil => simp [headerLoop]
  | cons row rest ih =>
    have hextra := dictRow_rest names row
    rw [headerLoop, List.forall_mem_cons]
    split
    · rename_i hblank
      rw [ih, hblank]
      simp
    · rcases hdict : dictRow names row with ⟨values,extra⟩
      rw [hdict] at hextra
      by_cases hlong : names.length < row.length
      · rw [if_pos hlong] at hextra
        obtain rfl : extra = _ := hextra
        have hnot : ¬row.length ≤ names.length := Nat.not_le.mpr hlong
        cases values <;> simp [hnot]
      · rw [if_neg hlong] at hextra
        obtain rfl : extra = none := hextra
        have hshort : row.length ≤ names.length := Nat.not_lt.mp hlong
        cases values <;> simp [Reading.cons, ih, hshort]

/-- Without a header every row has the length of the first. -/
theorem plainLoop_failure (lineNo : Int) (n : Nat) (rows : List (List String)) :
    (plainLoop failure lineNo (some n) rows).failure = none ↔
      failure = none ∧ ∀ row ∈ rows, row ≠ [] → row.length = n := by
  induction rows generalizing lineNo with
  | nil => simp [plainLoop]
  | cons row rest ih =>
    rw [plainLoop, List.forall_mem_cons]
    split
    · rename_i hblank
      rw [ih]
      simp [hblank]
    · rename_i hblank
      split
      · rename_i hlength
        simp_all
      · rename_i hlength
        rw [Option.getD_some, not_not] at hlength
        simp [Reading.cons, ih, hblank, hlength]

/-- The first row that is not blank has the given length, if there is one. -/
def FirstRow (n : Nat) (rows : List (List String)) : Prop :=
  ∀ row ∈ rows.find? fun r => !r.isEmpty, row.length = n

instance (n : Nat) (rows : List (List String)) : Decidable (FirstRow n rows) :=
  inferInstanceAs (Decidable (∀ row ∈ rows.find? fun r => !r.isEmpty, row.length = n))

theorem plainLoop_first {n : Nat} {rows : List (List String)} (h : FirstRow n rows)
    (lineNo : Int) :
    plainLoop failure lineNo none rows = plainLoop failure lineNo (some n) rows := by
  induction rows generalizing lineNo with
  | nil => rfl
  | cons row rest ih =>
    cases row with
    | nil => exact ih h (lineNo+1)
    | cons value values =>
      have hlength : (value::values).length = n := h _ rfl
      rw [plainLoop, plainLoop, if_neg (List.cons_ne_nil _ _), if_neg (List.cons_ne_nil _ _)]
      simp only [Option.getD_none, Option.getD_some, hlength]

/-! ## What the modes read -/

/-- The record of a row read with and without a header. -/
structure SameRecord (withHeader plain : SourceRecord) : Prop where
  values : withHeader.values.map Prod.snd = plain.values.map Prod.snd
  lineNo : withHeader.lineNo = plain.lineNo + 1
  recordId : withHeader.recordId = lineId withHeader.lineNo ∧ plain.recordId = lineId plain.lineNo

def SameRecords (withHeader plain : Reading) : Prop :=
  List.Forall₂ SameRecord withHeader.records plain.records

theorem dictRow_of_length {row : List String} (hnames : names.Nodup)
    (hlength : row.length = names.length) :
    dictRow names row = ((names.zip row).map fun entry => (entry.1,some entry.2),none) := by
  have hkeys : (names.zip row).map Prod.fst = names := by
    rw [List.map_fst_zip (Nat.le_of_eq hlength.symm)]
  have hzip : (names.zip row).foldl (fun (d : Dict String (Option String)) entry =>
      Dict.set d entry.1 (some entry.2)) [] =
        (names.zip row).map fun entry => (entry.1,some entry.2) := by
    rw [Dict.foldl_set_eq_append Prod.fst (fun entry => some entry.2) (names.zip row) []
      (by simpa [Dict.keys, hkeys] using hnames), List.nil_append]
  unfold dictRow
  rw [hzip, hlength, if_neg (Nat.lt_irrefl _), ← hlength, hlength, List.drop_length]
  rfl

theorem map_snd_columnValues (row : List String) :
    (columnValues row).map Prod.snd = row.map fun value => parseNull (some value) := by
  have hvalues : (columnValues row).map Prod.snd =
      (row.zipIdx.map Prod.fst).map fun value => parseNull (some value) := by
    unfold columnValues
    rw [List.map_map, List.map_map]
    rfl
  rw [hvalues, List.zipIdx_map_fst]

/-- A row as long as the header gives one record, with the values of the row. -/
theorem headerLoop_row {row : List String} (hnames : names.Nodup)
    (hlength : row.length = names.length) (hne : row ≠ []) (lineNo : Int)
    (rest : List (List String)) :
    ∃ values : Fields, values.map Prod.snd = row.map (fun value => parseNull (some value)) ∧
      headerLoop names failure lineNo (row::rest) =
        Reading.cons ⟨lineNo,lineId lineNo,values⟩ (headerLoop names failure (lineNo+1) rest) := by
  have hdict := dictRow_of_length hnames hlength
  obtain ⟨value,values,rfl⟩ := List.exists_cons_of_ne_nil hne
  obtain ⟨name,others,rfl⟩ := List.exists_cons_of_length_eq_add_one hlength.symm
  refine ⟨((name::others).zip (value::values)).map fun entry =>
    (entry.1,parseNull (some entry.2)),?_,?_⟩
  · rw [List.map_map]
    have hsnd : ((name::others).zip (value::values)).map Prod.snd = value::values := by
      rw [List.map_snd_zip (Nat.le_of_eq hlength)]
    conv_rhs => rw [← hsnd, List.map_map]
    rfl
  · rw [headerLoop, if_neg hne, hdict]
    simp [List.map_map, Function.comp_def]

theorem plainLoop_row {row : List String} {n : Nat} (hlength : row.length = n) (hne : row ≠ [])
    (lineNo : Int) (rest : List (List String)) :
    plainLoop failure lineNo (some n) (row::rest) =
      Reading.cons ⟨lineNo,lineId lineNo,columnValues row⟩
        (plainLoop failure (lineNo+1) (some n) rest) := by
  rw [plainLoop, if_neg hne, Option.getD_some, if_neg (not_not.mpr hlength)]

theorem headerLoop_blank (lineNo : Int) (rest : List (List String)) :
    headerLoop names failure lineNo ([]::rest) = headerLoop names failure lineNo rest := by
  rw [headerLoop, if_pos rfl]

theorem plainLoop_blank (lineNo : Int) (expected : Option Nat) (rest : List (List String)) :
    plainLoop failure lineNo expected ([]::rest) = plainLoop failure (lineNo+1) expected rest := by
  rw [plainLoop, if_pos rfl]

/-- The records of a row agree when the header mode counts one line more. -/
theorem sameRecords_row {row : List String} {rest : List (List String)} (hnames : names.Nodup)
    (hlength : row.length = names.length) (hne : row ≠ []) (header plain : Int) :
    SameRecords (headerLoop names failure header (row::rest))
        (plainLoop failure plain (some names.length) (row::rest)) ↔
      header = plain + 1 ∧ SameRecords (headerLoop names failure (header+1) rest)
        (plainLoop failure (plain+1) (some names.length) rest) := by
  obtain ⟨values,hvalues,hheader⟩ := @headerLoop_row names failure row
    hnames hlength hne header rest
  rw [hheader, plainLoop_row hlength hne]
  unfold SameRecords Reading.cons
  rw [List.forall₂_cons]
  refine and_congr_left' ⟨fun h => h.lineNo,fun hline => ⟨?_,hline,rfl,rfl⟩⟩
  rw [hvalues, map_snd_columnValues]

/-- Once the header mode is behind in its count, it stays behind. -/
theorem not_sameRecords {rows : List (List String)} (hnames : names.Nodup)
    (hlength : ∀ row ∈ rows, row ≠ [] → row.length = names.length) {header plain : Int}
    (hbehind : header ≤ plain) :
    SameRecords (headerLoop names failure header rows)
        (plainLoop failure plain (some names.length) rows) ↔ ∀ row ∈ rows, row = [] := by
  induction rows generalizing plain with
  | nil => simp [SameRecords, headerLoop, plainLoop]
  | cons row rest ih =>
    obtain ⟨hrow,hrest⟩ := List.forall_mem_cons.mp hlength
    by_cases hne : row = []
    · subst hne
      rw [headerLoop_blank, plainLoop_blank, ih hrest (by omega)]
      simp
    · rw [sameRecords_row hnames (hrow hne) hne]
      constructor
      · rintro ⟨hline,-⟩
        omega
      · intro hall
        exact absurd (hall row List.mem_cons_self) hne

/-- The rows agree as long as no blank row stands before one that is not blank. -/
theorem sameRecords_iff {rows : List (List String)} (hnames : names.Nodup)
    (hlength : ∀ row ∈ rows, row ≠ [] → row.length = names.length) (lineNo : Int) :
    SameRecords (headerLoop names failure (lineNo+1) rows)
        (plainLoop failure lineNo (some names.length) rows) ↔
      rows.Pairwise fun row later => row = [] → later = [] := by
  induction rows generalizing lineNo with
  | nil => simp [SameRecords, headerLoop, plainLoop]
  | cons row rest ih =>
    obtain ⟨hrow,hrest⟩ := List.forall_mem_cons.mp hlength
    rw [List.pairwise_cons]
    by_cases hne : row = []
    · subst hne
      rw [headerLoop_blank, plainLoop_blank, not_sameRecords hnames hrest (Int.le_refl _)]
      constructor
      · intro hall
        exact ⟨fun later hlater _ => hall later hlater,
          List.pairwise_of_forall_mem_list fun _ _ later hlater _ => hall later hlater⟩
      · rintro ⟨hall,-⟩ later hlater
        exact hall later hlater rfl
    · rw [sameRecords_row hnames (hrow hne) hne, ih hrest]
      constructor
      · rintro ⟨-,hpairwise⟩
        exact ⟨fun _ _ hblank => absurd hblank hne,hpairwise⟩
      · rintro ⟨-,hpairwise⟩
        exact ⟨rfl,hpairwise⟩

/-! ## A text behind a header line -/

/-- A line that stands before a text, is a record of its own and names its columns. -/
structure HeaderLine (dialect : Dialect) (header text : String) (names : List String) : Prop where
  line : Csv.lines (header ++ text) = header.toList::Csv.lines text
  closed : processLine dialect .start header.toList = .ok ⟨.startRecord,names,[]⟩
  distinct : names.Nodup
  count : FirstRow names.length (rows dialect text).1

/-- The two modes accept or reject a text together, and accepted records agree. -/
def ModesAgree (dialect : Dialect) (header text : String) : Prop :=
  ((readWithHeader dialect (header ++ text)).Accepted ↔
      (readPlain dialect text).Accepted) ∧
    ((readPlain dialect text).Accepted →
      SameRecords (readWithHeader dialect (header ++ text)) (readPlain dialect text))

/-- The modes agree exactly on the texts that the reader refuses, that have a row longer than
the first, or whose rows are of one length without a blank row before the last of them. -/
theorem modes_agree_iff {dialect : Dialect} {header text : String} {names : List String}
    (h : HeaderLine dialect header text names) :
    ModesAgree dialect header text ↔
      (rows dialect text).2 ≠ none ∨ (∃ row ∈ (rows dialect text).1, names.length < row.length) ∨
        ((∀ row ∈ (rows dialect text).1, row ≠ [] → row.length = names.length) ∧
          (rows dialect text).1.Pairwise fun row later => row = [] → later = []) := by
  have hheader : readWithHeader dialect (header ++ text) =
      headerLoop names ((rows dialect text).2.map csvError) 2 (rows dialect text).1 := by
    rw [readWithHeader, rows_of_line h.line h.closed]
  have hplain : readPlain dialect text = plainLoop ((rows dialect text).2.map csvError) 1
      (some names.length) (rows dialect text).1 := plainLoop_first h.count 1
  rw [ModesAgree, hheader, hplain, Reading.Accepted, Reading.Accepted, headerLoop_failure,
    plainLoop_failure]
  generalize (rows dialect text).1 = read
  cases (rows dialect text).2 with
  | some message => simp
  | none =>
    simp only [Option.map_none, true_and, ne_eq, not_true_eq_false, false_or]
    by_cases hlong : ∃ row ∈ read, names.length < row.length
    · have hrefused : ¬∀ row ∈ read, row.length ≤ names.length := by
        obtain ⟨row,hrow,hlt⟩ := hlong
        exact fun hall => absurd (hall row hrow) (Nat.not_le.mpr hlt)
      have hunequal : ¬∀ row ∈ read, ¬row = [] → row.length = names.length := by
        obtain ⟨row,hrow,hlt⟩ := hlong
        intro hall
        have hne : row ≠ [] := by
          rintro rfl
          exact absurd hlt (Nat.not_lt_zero _)
        have heq := hall row hrow hne
        omega
      simp [hlong, hrefused, hunequal]
    · have hfits : ∀ row ∈ read, row.length ≤ names.length := by
        intro row hrow
        exact Nat.not_lt.mp fun hlt => hlong ⟨row,hrow,hlt⟩
      rw [iff_true_left hfits, or_iff_right hlong]
      refine and_congr_right fun hequal => ?_
      rw [imp_iff_right hequal]
      exact sameRecords_iff h.distinct hequal 1

theorem modes_agree_iff_line :
    ModesAgree ⟨',','"',131072⟩ "x,y\n" "a,b\n" ↔
      (rows ⟨',','"',131072⟩ "a,b\n").2 ≠ none ∨
        (∃ row ∈ (rows ⟨',','"',131072⟩ "a,b\n").1, 2 < row.length) ∨
        ((∀ row ∈ (rows ⟨',','"',131072⟩ "a,b\n").1, row ≠ [] → row.length = 2) ∧
          (rows ⟨',','"',131072⟩ "a,b\n").1.Pairwise fun row later => row = [] → later = []) :=
  @modes_agree_iff _ _ _ ["x","y"] ⟨by decide,by decide,by decide,by decide⟩

theorem SameRecords.lineNos {header plain : Reading} (h : SameRecords header plain) :
    header.records.map SourceRecord.lineNo = plain.records.map fun record => record.lineNo + 1 := by
  unfold SameRecords at h
  generalize header.records = read at h
  generalize plain.records = counted at h
  induction h with
  | nil => rfl
  | cons hsame _ ih => rw [List.map_cons, List.map_cons, ih, hsame.lineNo]

/-- A blank line between two rows is counted in one mode, and a short row is refused in one. -/
theorem blank_line_and_short_row :
    (HeaderLine ⟨',','"',131072⟩ "x,y\n" "a,b\n\nc,d\n" ["x","y"] ∧
        ¬ModesAgree ⟨',','"',131072⟩ "x,y\n" "a,b\n\nc,d\n") ∧
      HeaderLine ⟨',','"',131072⟩ "x,y\n" "a,b\nc\n" ["x","y"] ∧
        ¬ModesAgree ⟨',','"',131072⟩ "x,y\n" "a,b\nc\n" := by
  refine ⟨⟨⟨by decide,by decide,by decide,by decide⟩,?_⟩,
    ⟨by decide,by decide,by decide,by decide⟩,?_⟩
  · rintro ⟨-,hrecords⟩
    have hlines := (hrecords (by decide)).lineNos
    exact absurd hlines (by decide)
  · rintro ⟨haccepted,-⟩
    exact absurd (haccepted.mp (by decide)) (by decide)

end CsvRecordSource
end NexusEtl
