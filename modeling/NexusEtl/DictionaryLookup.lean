import NexusEtl.CacheDsl
import NexusEtl.Library.Buckets
import NexusEtl.Library.Fallible

/-!
# Dictionaries and their lookup

A dictionary is a CSV file with a key column. The rows are indexed by the
normalised key that the CSV parser read, and queried by the normalised key that
the caller gives as a text. The parser infers the type of the key column, so
the two keys of a row meet only where the value and its text normalise alike.
-/

set_option autoImplicit false

namespace NexusEtl
open NexusEtl.Library

structure DictionarySourceCsvSpec where
  delimiter : String := ","
  hasHeader : Bool := true
  encoding : String := "utf-8"
  nullValues : List String := ["NULL"]
  deriving DecidableEq, Repr

structure DictionaryValueColumnSpec where
  name : String
  nullable : Bool := false
  deriving DecidableEq, Repr

structure CompiledDictionaryOperation where
  name : String
  func : OperationFunc
  args : Fields

/-- The compiled specification with what the manifest says about its file. -/
structure CompiledDictionarySpec where
  dictName : String
  keyColumn : String
  valueColumns : List DictionaryValueColumnSpec
  csv : DictionarySourceCsvSpec := {}
  location : String
  allowDuplicates : Bool := false
  normalizedKeyOps : List CompiledDictionaryOperation := []
  contentSha256 : String
  rowCount : Nat
  valueColumns_ne : valueColumns ≠ []
  columns_nodup : (keyColumn::valueColumns.map DictionaryValueColumnSpec.name).Nodup

/-- The cells of a file as texts; a cell that is empty or a null value is `none`. -/
structure TextTable where
  columns : List String
  rows : List (Dict String (Option String))
  rows_keys : ∀ row ∈ rows, Dict.keys row = columns

def TextTable.cells (table : TextTable) (column : String) : List (Option String) :=
  table.rows.map fun row => (Dict.get? row column).join

/-- `pl.read_csv`: it takes the cells of a text, infers the type of each column from its cells,
and reads each cell by the type of its column. -/
structure ReadCsv where
  table : DictionarySourceCsvSpec → String → Except PyException TextTable
  castCell : List (Option String) → String → Except PyException Value

def ReadCsv.row (engine : ReadCsv) (table : TextTable) (row : Dict String (Option String)) :
    Except PyException Fields :=
  row.mapM fun entry => match entry.2 with
    | none => .ok (entry.1,.null)
    | some text => (engine.castCell (table.cells entry.1) text).map fun v => (entry.1,v)

/-- The frame as its named rows. -/
def ReadCsv.frame (engine : ReadCsv) (table : TextTable) : Except PyException (List Fields) :=
  table.rows.mapM (engine.row table)

/-- What the loader asks of the file system and of the libraries. -/
structure DictionaryFiles where
  resolve : String → String
  readBytes : String → Except PyException (List UInt8)
  sha256 : List UInt8 → String
  decode : String → List UInt8 → Except PyException String
  readCsv : ReadCsv

/-- A failure of the DSL layer, or any other exception. -/
abbrev Loading := Except (DslLoadError ⊕ PyException)

structure LoadedDictionary where
  compiled : CompiledDictionarySpec
  rows : List Fields
  keyIndex : Dict String (List Nat)

namespace CompiledDictionarySpec

variable (compiled : CompiledDictionarySpec)

def allowedColumns : List String :=
  compiled.keyColumn::compiled.valueColumns.map DictionaryValueColumnSpec.name

def normalizeKey (value : Value) : Except PyException Value :=
  compiled.normalizedKeyOps.foldlM (fun current op => op.func current op.args) value

end CompiledDictionarySpec

/-- `_index_key` -/
def indexKey (value : Value) : String :=
  if value.isNull then "__none__" else "v:" ++ value.pyStr

namespace CompiledDictionarySpec

variable (compiled : CompiledDictionarySpec)

/-- The key under which a value is indexed and looked up. -/
def keyOf (value : Value) : Except PyException String := (compiled.normalizeKey value).map indexKey

def rowKey (row : Fields) : Except PyException String :=
  compiled.keyOf (Fields.read row compiled.keyColumn)

/-! ## The loader -/

def readFailed (action path : String) (exc : PyException) : DslLoadError where
  code := "DICT_SOURCE_READ_FAILED"
  message := "Failed to " ++ action ++ " dictionary CSV for '" ++ compiled.dictName ++ "': " ++
    exc.text
  details := [("dict_name",.str compiled.dictName),("path",.str path)]

/-- `_decode_text` -/
def decodeText (files : DictionaryFiles) (raw : List UInt8) : Except PyException String :=
  let stripped := Text.lower (Text.strip compiled.csv.encoding)
  let normalized := String.ofList (stripped.toList.map fun c => if c = '_' then '-' else c)
  if normalized = "utf-8" ∨ normalized = "utf8" then files.decode "utf-8-sig" raw
  else files.decode compiled.csv.encoding raw

/-- The cells of the file of the dictionary. -/
def fileTable (files : DictionaryFiles) (raw : List UInt8) : Except PyException TextTable := do
  let text ← compiled.decodeText files raw
  files.readCsv.table compiled.csv text

def parseCsv (files : DictionaryFiles) (raw : List UInt8) :
    Except PyException (TextTable × List Fields) := do
  let table ← compiled.fileTable files raw
  let rows ← files.readCsv.frame table
  return (table,rows)

def nullCount (column : String) (rows : List Fields) : Nat :=
  rows.countP fun row => (Fields.read row column).isNull

/-- A column that the file has may have no null cell. -/
def checkNulls (kind role column path : String) (columns : List String) (rows : List Fields) :
    Except DslLoadError Unit :=
  if column ∈ columns ∧ 0 < nullCount column rows then
    .error {
      code := "DICT_SOURCE_NULLABILITY_INVALID"
      message := "Dictionary " ++ kind ++ " contains nulls for '" ++ compiled.dictName ++ "'"
      details := [("dict_name",.str compiled.dictName),("path",.str path),("column",.str column),
        ("null_count",.int (nullCount column rows)),("column_role",.str role)] }
  else .ok ()

/-- `_validate_frame_nullability_or_raise` -/
def validateNullability (path : String) (columns : List String) (rows : List Fields) :
    Except DslLoadError Unit := do
  compiled.checkNulls "key column" "key" compiled.keyColumn path columns rows
  compiled.valueColumns.forM fun column =>
    if column.nullable then .ok ()
    else compiled.checkNulls "non-nullable value column" "value" column.name path columns rows

/-- `_validate_columns` -/
def validateColumns (columns : List String) : Except DslLoadError Unit :=
  let missing := sortTexts (compiled.allowedColumns.filter (· ∉ columns)).dedup
  if missing = [] then .ok ()
  else .error {
    code := "DICT_SCHEMA_INVALID"
    message := "Dictionary CSV is missing required columns for '" ++ compiled.dictName ++ "'"
    details := [("dict_name",.str compiled.dictName),
      ("missing_columns",CacheDsl.textList missing),
      ("actual_columns",CacheDsl.textList (sortTexts columns.dedup))] }

/-- `_build_key_index` -/
def buildKeyIndex (rows : List Fields) : Except PyException (Dict String (List Nat)) :=
  rows.zipIdx.foldlM (fun buckets entry => do
    let key ← compiled.rowKey entry.1
    return Buckets.add buckets (key,entry.2)) []

def checkDuplicates (keyIndex : Dict String (List Nat)) : Except DslLoadError Unit :=
  let duplicates := (keyIndex.filter fun entry => decide (1 < entry.2.length)).map Prod.fst
  if compiled.allowDuplicates ∨ duplicates = [] then .ok ()
  else .error {
    code := "DICT_SCHEMA_INVALID"
    message := "Duplicate dictionary keys are not allowed for '" ++ compiled.dictName ++
      "' (allow_duplicates=false)"
    details := [("dict_name",.str compiled.dictName),
      ("duplicates_count",.int duplicates.length),
      ("sample_duplicate_keys",CacheDsl.textList (duplicates.take 5))] }

/-- A failure of the DSL layer as one of the loader. -/
def raising {α : Type} (result : Except DslLoadError α) : Loading α := result.mapError .inl

/-- `load_dictionary_frame` -/
def loadFrame (columns : List String) (rows : List Fields) : Loading LoadedDictionary := do
  raising (compiled.validateColumns columns)
  let keyIndex ← (compiled.buildKeyIndex rows).mapError .inr
  raising (compiled.checkDuplicates keyIndex)
  return ⟨compiled,rows,keyIndex⟩

def checkContent (path actual : String) : Except DslLoadError Unit :=
  if actual = compiled.contentSha256 then .ok ()
  else .error {
    code := "DICT_SOURCE_FINGERPRINT_MISMATCH"
    message := "Dictionary content fingerprint mismatch for '" ++ compiled.dictName ++ "'"
    details := [("dict_name",.str compiled.dictName),("path",.str path),
      ("expected_content_sha256",.str compiled.contentSha256),
      ("actual_content_sha256",.str actual)] }

def checkRowCount (path : String) (actual : Nat) : Except DslLoadError Unit :=
  if actual = compiled.rowCount then .ok ()
  else .error {
    code := "DICT_SOURCE_FINGERPRINT_MISMATCH"
    message := "Dictionary row_count mismatch for '" ++ compiled.dictName ++ "'"
    details := [("dict_name",.str compiled.dictName),("path",.str path),
      ("expected_row_count",.int compiled.rowCount),("actual_row_count",.int actual)] }

/-- `load_dictionary_into`, for a dictionary that is not loaded yet. -/
def load (files : DictionaryFiles) : Loading LoadedDictionary := do
  let path := files.resolve compiled.location
  let raw ← raising ((files.readBytes path).mapError (compiled.readFailed "read" path))
  raising (compiled.checkContent path (files.sha256 raw))
  let parsed ← raising ((compiled.parseCsv files raw).mapError (compiled.readFailed "parse" path))
  raising (compiled.checkRowCount path parsed.2.length)
  raising (compiled.validateNullability path parsed.1.columns parsed.2)
  compiled.loadFrame parsed.1.columns parsed.2

end CompiledDictionarySpec

/-! ## The lookup -/

namespace CompiledDictionarySpec

variable (compiled : CompiledDictionarySpec)

/-- `_resolve_projection` -/
def resolveProjection (fields : Option (List String)) : Except DslLoadError (List String) :=
  match fields with
  | none => .ok compiled.allowedColumns
  | some fields =>
    let invalid := fields.filter (· ∉ compiled.allowedColumns)
    if invalid = [] then .ok fields
    else .error {
      code := "DICT_SCHEMA_INVALID"
      message := "Unknown projection fields for dictionary '" ++ compiled.dictName ++ "'"
      details := [("dict_name",.str compiled.dictName),
        ("invalid_fields",CacheDsl.textList invalid),
        ("allowed_fields",CacheDsl.textList (sortTexts compiled.allowedColumns))] }

end CompiledDictionarySpec

/-- `_project_row` -/
def projectRow (projection : List String) (row : Fields) : Fields :=
  projection.foldl (fun out field => Dict.set out field (Fields.read row field)) []

namespace LoadedDictionary

variable (loaded : LoadedDictionary)

/-- `_lookup_indexes` -/
def lookupIndexes (key : Value) : Except PyException (List Nat) :=
  (loaded.compiled.keyOf key).map fun found => (Dict.get? loaded.keyIndex found).getD []

def limitIndexes (indexes : List Nat) : Option Int → Except PyException (List Nat)
  | none => .ok indexes
  | some limit =>
    if limit ≤ 0 then .error ⟨"ValueError","limit must be > 0"⟩
    else .ok (indexes.take limit.toNat)

def lookup (key : String) (fields : Option (List String)) (limit : Option Int) :
    Loading (List Fields) := do
  let projection ← CompiledDictionarySpec.raising (loaded.compiled.resolveProjection fields)
  let indexes ← (loaded.lookupIndexes (.str key)).mapError .inr
  let kept ← (limitIndexes indexes limit).mapError .inr
  return kept.map fun i => projectRow projection (loaded.rows[i]?.getD [])

def contains (value : String) : Loading Bool :=
  ((loaded.compiled.keyOf (.str value)).map fun key =>
    Dict.contains loaded.keyIndex key).mapError .inr

end LoadedDictionary

/-! ## What the file holds -/

namespace CompiledDictionarySpec

variable (compiled : CompiledDictionarySpec)

/-- The text of the key of a row of the file. -/
def keyText (row : Dict String (Option String)) : Option String :=
  (Dict.get? row compiled.keyColumn).join

/-- Whether a row of the file has a key text that normalises to the key. -/
def hasKey (key : String) (row : Dict String (Option String)) : Bool :=
  match compiled.keyText row with
  | none => false
  | some text => match compiled.keyOf (.str text) with
    | .ok found => found == key
    | .error _ => false

/-- Each key text of the file normalises like the value that the CSV parser reads from it. -/
def KeysMeet (engine : ReadCsv) (table : TextTable) : Prop :=
  ∀ row ∈ table.rows, ∀ text, compiled.keyText row = some text →
    ∀ v, engine.castCell (table.cells compiled.keyColumn) text = .ok v →
      compiled.keyOf (.str text) = compiled.keyOf v

end CompiledDictionarySpec

/-- The lookup finds what the file holds. -/
structure LoadedDictionary.FindsFileRows (loaded : LoadedDictionary) (table : TextTable) :
    Prop where
  found : ∀ entry ∈ table.rows.zip loaded.rows, ∀ text,
    loaded.compiled.keyText entry.1 = some text →
      ∃ out, loaded.lookup text none none = .ok out ∧
        projectRow loaded.compiled.allowedColumns entry.2 ∈ out
  contained : ∀ text, loaded.contains text =
    (loaded.lookup text none none).map fun out => decide (out ≠ [])
  exact : ∀ text key fields projection, loaded.compiled.keyOf (.str text) = .ok key →
    loaded.compiled.resolveProjection fields = .ok projection →
      loaded.lookup text fields none = .ok
        (((table.rows.zip loaded.rows).filter fun entry => loaded.compiled.hasKey key entry.1).map
          fun entry => projectRow projection entry.2)
  limited : ∀ text fields limit, 0 < limit → loaded.lookup text fields (some limit) =
    (loaded.lookup text fields none).map (List.take limit.toNat)
  distinct : loaded.compiled.allowDuplicates = false → table.rows.Pairwise fun row other =>
    ∀ key, loaded.compiled.hasKey key row = true → loaded.compiled.hasKey key other = false

/-! ## A dictionary that loads -/

theorem mapError_ok_iff {α ε ζ : Type} {f : ε → ζ} {x : Except ε α} {a : α} :
    x.mapError f = .ok a ↔ x = .ok a := by
  cases x <;> simp [Except.mapError]

/-- The cell of a row of the frame is read from the cell of the row of the file. -/
theorem ReadCsv.read_row {engine : ReadCsv} {table : TextTable}
    {row : Dict String (Option String)} {named : Fields} (h : engine.row table row = .ok named)
    (column : String) :
    match (Dict.get? row column).join with
    | none => Fields.read named column = .null
    | some text => engine.castCell (table.cells column) text = .ok (Fields.read named column) := by
  rw [ReadCsv.row, mapM_ok_iff] at h
  induction h with
  | nil => rfl
  | @cons entry out row named hentry _ ih =>
    obtain ⟨name,cell⟩ := entry
    by_cases hname : name = column
    · subst hname
      cases cell with
      | none =>
        cases hentry
        simp [Dict.get?, Fields.read]
      | some text =>
        cases hcell : engine.castCell (table.cells name) text with
        | error e => simp [hcell, Except.map] at hentry
        | ok v =>
          simp only [hcell, Except.map, Except.ok.injEq] at hentry
          subst hentry
          simp [Dict.get?, Fields.read, hcell]
    · have hout : out.1 = name := by
        cases cell with
        | none => cases hentry; rfl
        | some text =>
          cases hcell : engine.castCell (table.cells name) text with
          | error e => simp [hcell, Except.map] at hentry
          | ok v =>
            simp only [hcell, Except.map, Except.ok.injEq] at hentry
            rw [← hentry]
      have hrow : Dict.get? ((name,cell)::row) column = Dict.get? row column := by
        simp [Dict.get?, hname]
      have hnamed : Fields.read (out::named) column = Fields.read named column := by
        simp [Dict.get?, Fields.read, hout, hname]
      rw [hrow, hnamed]
      exact ih

namespace CompiledDictionarySpec

variable {compiled : CompiledDictionarySpec}

theorem foldlM_add (rows : List Fields) (n : Nat) (buckets out : Dict String (List Nat)) :
    (rows.zipIdx n).foldlM (fun buckets entry => do
      let key ← compiled.rowKey entry.1
      return Buckets.add buckets (key,entry.2)) buckets = .ok out ↔
      ∃ keys, rows.mapM compiled.rowKey = .ok keys ∧
        out = (keys.zipIdx n).foldl Buckets.add buckets := by
  induction rows generalizing n buckets with
  | nil => simp [pure, Except.pure, eq_comm]
  | cons row rows ih =>
    rw [List.zipIdx_cons, List.foldlM_cons, List.mapM_cons]
    cases hkey : compiled.rowKey row with
    | error e => simp [bind, Except.bind]
    | ok key =>
      have hstep := ih (n+1) (Buckets.add buckets (key,n))
      constructor
      · intro h
        obtain ⟨keys,hkeys,rfl⟩ := hstep.mp h
        exact ⟨key::keys,by simp [hkeys, bind, Except.bind, pure, Except.pure],rfl⟩
      · rintro ⟨keys,hkeys,rfl⟩
        obtain ⟨_,⟨⟩,hrows⟩ := bind_ok_iff.mp hkeys
        obtain ⟨rest,hrest,⟨⟩⟩ := bind_ok_iff.mp hrows
        exact hstep.mpr ⟨rest,hrest,rfl⟩

/-- The index of the rows is the index of their keys. -/
theorem buildKeyIndex_ok_iff {rows : List Fields} {keyIndex : Dict String (List Nat)} :
    compiled.buildKeyIndex rows = .ok keyIndex ↔
      ∃ keys, rows.mapM compiled.rowKey = .ok keys ∧ keyIndex = Buckets.index keys :=
  foldlM_add rows 0 [] keyIndex

theorem nodup_of_checkDuplicates {keys : List String} (hunique : compiled.allowDuplicates = false)
    (h : compiled.checkDuplicates (Buckets.index keys) = .ok ()) : keys.Nodup := by
  refine Buckets.nodup_of_index fun entry hentry => ?_
  by_contra hmany
  have hkey : entry.1 ∈ ((Buckets.index keys).filter fun entry =>
      decide (1 < entry.2.length)).map Prod.fst :=
    List.mem_map_of_mem (List.mem_filter.mpr ⟨hentry,decide_eq_true (Nat.lt_of_not_le hmany)⟩)
  have hne := List.ne_nil_of_mem hkey
  rw [checkDuplicates, if_neg (by simp [hunique, hne])] at h
  cases h

/-- What a load that succeeds has read and checked. -/
theorem load_ok {files : DictionaryFiles} {loaded : LoadedDictionary}
    (h : compiled.load files = .ok loaded) {raw : List UInt8} {table : TextTable}
    (hraw : files.readBytes (files.resolve compiled.location) = .ok raw)
    (htable : compiled.fileTable files raw = .ok table) :
    loaded.compiled = compiled ∧ files.readCsv.frame table = .ok loaded.rows ∧
      (compiled.keyColumn ∈ table.columns →
        nullCount compiled.keyColumn loaded.rows = 0) ∧
      compiled.validateColumns table.columns = .ok () ∧
      compiled.buildKeyIndex loaded.rows = .ok loaded.keyIndex ∧
      compiled.checkDuplicates loaded.keyIndex = .ok () := by
  obtain ⟨_,hread,h⟩ := bind_ok_iff.mp h
  cases hraw.symm.trans (mapError_ok_iff.mp (mapError_ok_iff.mp hread))
  obtain ⟨_,-,h⟩ := bind_ok_iff.mp h
  obtain ⟨parsed,hparse,h⟩ := bind_ok_iff.mp h
  obtain ⟨_,hparsed,hframe⟩ := bind_ok_iff.mp (mapError_ok_iff.mp (mapError_ok_iff.mp hparse))
  cases htable.symm.trans hparsed
  obtain ⟨rows,hrows,⟨⟩⟩ := bind_ok_iff.mp hframe
  obtain ⟨_,-,h⟩ := bind_ok_iff.mp h
  obtain ⟨_,hnulls,h⟩ := bind_ok_iff.mp h
  obtain ⟨_,hcolumns,h⟩ := bind_ok_iff.mp h
  obtain ⟨keyIndex,hindex,h⟩ := bind_ok_iff.mp h
  obtain ⟨_,hduplicates,⟨⟩⟩ := bind_ok_iff.mp h
  obtain ⟨_,hnull,-⟩ := bind_ok_iff.mp (mapError_ok_iff.mp hnulls)
  refine ⟨rfl,hrows,?_,mapError_ok_iff.mp hcolumns,mapError_ok_iff.mp hindex,
    mapError_ok_iff.mp hduplicates⟩
  intro hkey
  by_contra hcount
  rw [checkNulls, if_pos ⟨hkey,Nat.pos_of_ne_zero hcount⟩] at hnull
  cases hnull

theorem keyColumn_mem {columns : List String} (h : compiled.validateColumns columns = .ok ()) :
    compiled.keyColumn ∈ columns := by
  by_contra hmissing
  have hkey : compiled.keyColumn ∈
      sortTexts (compiled.allowedColumns.filter (· ∉ columns)).dedup := by
    rw [sortTexts, List.mem_insertionSort, List.mem_dedup, List.mem_filter]
    exact ⟨List.mem_cons_self,decide_eq_true hmissing⟩
  rw [validateColumns, if_neg (List.ne_nil_of_mem hkey)] at h
  cases h

theorem nullCount_eq_zero {column : String} {rows : List Fields}
    (h : nullCount column rows = 0) {row : Fields} (hrow : row ∈ rows) :
    Fields.read row column ≠ .null := by
  intro hnull
  have hnot := List.countP_eq_zero.mp h row hrow
  rw [hnull] at hnot
  exact hnot rfl

/-- Every row of the frame stands for a row of the file with a key text, and has as its key what
was read from the text. -/
theorem rows_read {files : DictionaryFiles} {table : TextTable} {rows : List Fields}
    (hframe : files.readCsv.frame table = .ok rows)
    (hnulls : nullCount compiled.keyColumn rows = 0) :
    List.Forall₂ (fun row named => ∃ text, compiled.keyText row = some text ∧
      files.readCsv.castCell (table.cells compiled.keyColumn) text =
        .ok (Fields.read named compiled.keyColumn)) table.rows rows := by
  rw [ReadCsv.frame, mapM_ok_iff, List.forall₂_iff_zip] at hframe
  refine List.forall₂_iff_zip.mpr ⟨hframe.1,fun {row named} hentry => ?_⟩
  have hread := ReadCsv.read_row (hframe.2 hentry) compiled.keyColumn
  have hkey := nullCount_eq_zero hnulls (List.of_mem_zip hentry).2
  rw [← keyText] at hread
  cases htext : compiled.keyText row with
  | none =>
    rw [htext] at hread
    exact absurd hread hkey
  | some text =>
    rw [htext] at hread
    exact ⟨text,rfl,hread⟩

end CompiledDictionarySpec
theorem read_projectRow {projection : List String} {field : String} (h : field ∈ projection)
    (row : Fields) : Fields.read (projectRow projection row) field = Fields.read row field := by
  have hall : ∀ (rest : List String) (out : Fields),
      Fields.read (rest.foldl (fun out field => Dict.set out field (Fields.read row field)) out)
        field = if field ∈ rest then Fields.read row field else Fields.read out field := by
    intro rest
    induction rest with
    | nil => simp
    | cons name rest ih =>
      intro out
      rw [List.foldl_cons, ih]
      by_cases hname : name = field
      · simp [hname, Fields.read]
      · simp [hname, Ne.symm hname, Fields.read, Dict.get?_set]
  rw [projectRow, hall, if_pos h]

namespace LoadedDictionary

/-- The index of a loaded dictionary is the index of the keys of its rows. -/
structure Indexed (loaded : LoadedDictionary) (keys : List String) : Prop where
  rowKeys : loaded.rows.mapM loaded.compiled.rowKey = .ok keys
  keyIndex : loaded.keyIndex = Buckets.index keys

namespace Indexed

variable {loaded : LoadedDictionary} {keys : List String}

theorem rowKey (h : loaded.Indexed keys) :
    List.Forall₂ (fun key row => loaded.compiled.rowKey row = .ok key) keys loaded.rows :=
  (mapM_ok_iff.mp h.rowKeys).flip

/-- A lookup gives the rows that stand beside the key in the index. -/
theorem lookup (h : loaded.Indexed keys) {text key : String} {fields : Option (List String)}
    {projection : List String} (hkey : loaded.compiled.keyOf (.str text) = .ok key)
    (hfields : loaded.compiled.resolveProjection fields = .ok projection) :
    loaded.lookup text fields none = .ok
      (((keys.zip loaded.rows).filter fun entry => entry.1 = key).map
        fun entry => projectRow projection entry.2) := by
  have hrows := Buckets.map_positions h.rowKey.length_eq [] key
  have hmapped := congrArg (List.map (projectRow projection)) hrows
  rw [List.map_map, List.map_map] at hmapped
  rw [LoadedDictionary.lookup, hfields, lookupIndexes, hkey, Except.map, h.keyIndex,
    Buckets.get?_index]
  exact congrArg Except.ok hmapped

/-- A text is in the dictionary exactly when its lookup gives a row. -/
theorem contained (h : loaded.Indexed keys) (text : String) : loaded.contains text =
    (loaded.lookup text none none).map fun out => decide (out ≠ []) := by
  cases hkey : loaded.compiled.keyOf (.str text) with
  | error e => simp [contains, LoadedDictionary.lookup, lookupIndexes, hkey, Except.map,
      Except.mapError, CompiledDictionarySpec.resolveProjection, CompiledDictionarySpec.raising,
      bind, Except.bind]
  | ok key =>
    have hcontains : Dict.contains loaded.keyIndex key = decide (key ∈ keys) := by
      rw [h.keyIndex, Bool.eq_iff_iff, decide_eq_true_iff]
      exact Buckets.isSome_index keys key
    have hempty : key ∈ keys ↔ (keys.zip loaded.rows).filter (fun entry => entry.1 = key) ≠ [] := by
      have hzip : (keys.zip loaded.rows).map Prod.fst = keys :=
        List.map_fst_zip h.rowKey.length_eq.le
      have hmem : key ∈ keys ↔ ∃ entry ∈ keys.zip loaded.rows, entry.1 = key := by
        conv_lhs => rw [← hzip]
        exact List.mem_map
      simpa [List.filter_eq_nil_iff] using hmem
    rw [h.lookup hkey rfl, contains, hkey, Except.map, Except.map, Except.mapError, hcontains]
    simp only [hempty, ne_eq, List.map_eq_nil_iff]

theorem limited (loaded : LoadedDictionary) (text : String) (fields : Option (List String))
    {limit : Int} (hlimit : 0 < limit) : loaded.lookup text fields (some limit) =
      (loaded.lookup text fields none).map (List.take limit.toNat) := by
  rw [LoadedDictionary.lookup, LoadedDictionary.lookup]
  cases loaded.compiled.resolveProjection fields with
  | error e => rfl
  | ok projection =>
    cases loaded.lookupIndexes (.str text) with
    | error e => rfl
    | ok indexes =>
      simp [CompiledDictionarySpec.raising, limitIndexes, Int.not_le.mpr hlimit, Except.map,
        Except.mapError, bind, Except.bind, pure, Except.pure, List.map_take]

end Indexed
end LoadedDictionary

/-! ## When the lookup finds the rows of the file -/

/-- The key texts of the file normalise to the keys of the index. -/
def LoadedDictionary.TextKeys (loaded : LoadedDictionary) (table : TextTable)
    (keys : List String) : Prop :=
  List.Forall₂ (fun row key => ∃ text, loaded.compiled.keyText row = some text ∧
    loaded.compiled.keyOf (.str text) = .ok key) table.rows keys

namespace LoadedDictionary.TextKeys

variable {loaded : LoadedDictionary} {table : TextTable} {keys : List String}

theorem hasKey (h : loaded.TextKeys table keys) (key : String) :
    List.Forall₂ (fun row found => loaded.compiled.hasKey key row = decide (found = key))
      table.rows keys := by
  refine h.imp fun row found hrow => ?_
  obtain ⟨text,htext,hkey⟩ := hrow
  simp [CompiledDictionarySpec.hasKey, htext, hkey, beq_eq_decide]

/-- The rows beside a key of the index are the rows of the file with the key. -/
theorem rows_eq (h : loaded.TextKeys table keys) (key : String) (rows : List Fields) :
    ((keys.zip rows).filter fun entry => entry.1 = key).map Prod.snd =
      ((table.rows.zip rows).filter fun entry => loaded.compiled.hasKey key entry.1).map
        Prod.snd := by
  have hkeys := h.hasKey key
  clear h
  generalize table.rows = texts at hkeys
  induction hkeys generalizing rows with
  | nil => simp
  | cons hrow _ ih =>
    cases rows with
    | nil => simp
    | cons named rows =>
      rw [List.zip_cons_cons, List.zip_cons_cons, List.filter_cons, List.filter_cons, hrow]
      split
      · rw [List.map_cons, List.map_cons, ih rows]
      · exact ih rows

/-- No two rows of the file share a key when the index has distinct keys. -/
theorem distinct (h : loaded.TextKeys table keys) (hnodup : keys.Nodup) :
    table.rows.Pairwise fun row other => ∀ key, loaded.compiled.hasKey key row = true →
      loaded.compiled.hasKey key other = false := by
  have hrows := h.hasKey
  clear h
  generalize table.rows = texts at hrows
  induction keys generalizing texts with
  | nil =>
    cases hrows ""
    exact .nil
  | cons found keys ih =>
    cases texts with
    | nil => exact .nil
    | cons row texts =>
      have hnew := List.nodup_cons.mp hnodup
      refine .cons ?_ (ih hnew.2 texts fun key => (List.forall₂_cons.mp (hrows key)).2)
      intro other hother key hrow
      obtain ⟨hfirst,hrest⟩ := List.forall₂_cons.mp (hrows key)
      obtain ⟨shared,hshared,hkey⟩ := forall₂_exists_right hrest other hother
      rw [hrow] at hfirst
      have hfound : found = key := of_decide_eq_true hfirst.symm
      rw [hkey, decide_eq_false_iff_not, ← hfound]
      exact fun heq => hnew.1 (heq ▸ hshared)

end LoadedDictionary.TextKeys

namespace LoadedDictionary

variable {loaded : LoadedDictionary} {table : TextTable} {keys : List String}

/-- Where the texts have the keys of the index, the lookup finds what the file holds. -/
theorem findsFileRows (hindex : loaded.Indexed keys) (htexts : loaded.TextKeys table keys)
    (hdistinct : loaded.compiled.allowDuplicates = false → keys.Nodup) :
    loaded.FindsFileRows table := by
  have hexact : ∀ text key fields projection, loaded.compiled.keyOf (.str text) = .ok key →
      loaded.compiled.resolveProjection fields = .ok projection →
      loaded.lookup text fields none = .ok
        (((table.rows.zip loaded.rows).filter fun entry =>
          loaded.compiled.hasKey key entry.1).map fun entry =>
            projectRow projection entry.2) := by
    intro text key fields projection hkey hfields
    have hrows := congrArg (List.map (projectRow projection)) (htexts.rows_eq key loaded.rows)
    rw [List.map_map, List.map_map] at hrows
    rw [hindex.lookup hkey hfields]
    exact congrArg Except.ok hrows
  refine {
    found := ?_
    contained := hindex.contained
    exact := hexact
    limited := fun text fields limit hlimit => Indexed.limited loaded text fields hlimit
    distinct := fun hunique => htexts.distinct (hdistinct hunique) }
  intro entry hentry text htext
  obtain ⟨key,-,own,hown,hkey⟩ := forall₂_exists_right htexts entry.1 (List.of_mem_zip hentry).1
  cases htext.symm.trans hown
  refine ⟨_,hexact text key none _ hkey rfl,List.mem_map.mpr ⟨entry,?_,rfl⟩⟩
  rw [List.mem_filter]
  exact ⟨hentry,by simp [CompiledDictionarySpec.hasKey, htext, hkey]⟩

/-- A row that the lookup of its text gives has the key of the text. -/
theorem FindsFileRows.keys_meet (h : loaded.FindsFileRows table) (hindex : loaded.Indexed keys)
    {entry : Dict String (Option String) × Fields} (hentry : entry ∈ table.rows.zip loaded.rows)
    {text : String} (htext : loaded.compiled.keyText entry.1 = some text) :
    loaded.compiled.keyOf (.str text) = loaded.compiled.rowKey entry.2 := by
  obtain ⟨out,hout,hrow⟩ := h.found entry hentry text htext
  cases hkey : loaded.compiled.keyOf (.str text) with
  | error e =>
    rw [lookup, lookupIndexes, hkey] at hout
    cases hout
  | ok key =>
    rw [hindex.lookup hkey rfl] at hout
    cases hout
    obtain ⟨shared,hshared,heq⟩ := List.mem_map.mp hrow
    obtain ⟨hzip,hfound⟩ := List.mem_filter.mp hshared
    have hcolumn : loaded.compiled.keyColumn ∈ loaded.compiled.allowedColumns :=
      List.mem_cons_self
    have hread := congrArg (fun row => Fields.read row loaded.compiled.keyColumn) heq
    rw [read_projectRow hcolumn, read_projectRow hcolumn] at hread
    have hshared := (List.forall₂_iff_zip.mp hindex.rowKey).2 hzip
    rw [CompiledDictionarySpec.rowKey, ← hread, ← CompiledDictionarySpec.rowKey, hshared,
      of_decide_eq_true hfound]

end LoadedDictionary

namespace CompiledDictionarySpec

variable {compiled : CompiledDictionarySpec} {files : DictionaryFiles} {loaded : LoadedDictionary}

/-- A dictionary that loads finds what its file holds exactly when each key text of the file
normalises like the value that the CSV parser reads from it. -/
theorem finds_file_rows_iff (hload : compiled.load files = .ok loaded) {raw : List UInt8}
    {table : TextTable} (hraw : files.readBytes (files.resolve compiled.location) = .ok raw)
    (htable : compiled.fileTable files raw = .ok table) :
    loaded.FindsFileRows table ↔ compiled.KeysMeet files.readCsv table := by
  obtain ⟨rfl,hframe,hnulls,hcolumns,hkeyIndex,hduplicates⟩ := load_ok hload hraw htable
  obtain ⟨keys,hkeys,hindex⟩ := buildKeyIndex_ok_iff.mp hkeyIndex
  have hindexed : loaded.Indexed keys := ⟨hkeys,hindex⟩
  have hread := rows_read hframe (hnulls (keyColumn_mem hcolumns))
  constructor
  · intro h row hrow text htext v hv
    rw [← List.map_fst_zip hread.length_eq.le] at hrow
    obtain ⟨entry,hentry,rfl⟩ := List.mem_map.mp hrow
    obtain ⟨own,hown,hcell⟩ := (List.forall₂_iff_zip.mp hread).2 hentry
    cases htext.symm.trans hown
    cases hv.symm.trans hcell
    exact h.keys_meet hindexed hentry htext
  · intro h
    have hmeet : List.Forall₂ (fun row named => ∃ text, loaded.compiled.keyText row = some text ∧
        loaded.compiled.keyOf (.str text) = loaded.compiled.rowKey named)
        table.rows loaded.rows := by
      refine List.forall₂_iff_zip.mpr ⟨hread.length_eq,fun {row named} hentry => ?_⟩
      obtain ⟨text,htext,hcell⟩ := (List.forall₂_iff_zip.mp hread).2 hentry
      exact ⟨text,htext,h row (List.of_mem_zip hentry).1 text htext _ hcell⟩
    refine LoadedDictionary.findsFileRows hindexed ?_ ?_
    · refine forall₂_trans (fun row named key hrow hkey => ?_) hmeet (mapM_ok_iff.mp hkeys)
      obtain ⟨text,htext,heq⟩ := hrow
      exact ⟨text,htext,heq.trans hkey⟩
    · intro hunique
      exact nodup_of_checkDuplicates hunique (hindex ▸ hduplicates)

/-- The key texts of a key column that is read as text meet the keys of the index. -/
theorem keysMeet_of_text {engine : ReadCsv} {table : TextTable}
    (h : ∀ text, engine.castCell (table.cells compiled.keyColumn) text = .ok (.str text)) :
    compiled.KeysMeet engine table := by
  intro row _ text _ v hv
  cases hv.symm.trans (h text)
  rfl

end CompiledDictionarySpec

/-! ## A file of offices -/

/-- The table of the file `code,city` with one row. -/
def officeTable (code : String) : TextTable where
  columns := ["code","city"]
  rows := [[("code",some code),("city",some "Bonn")]]
  rows_keys := by
    intro row hrow
    cases List.mem_singleton.mp hrow
    rfl

/-- A column whose cells are digits is read as integers, any other column as text. -/
def castPlain (cells : List (Option String)) (text : String) : Value :=
  if cells.all fun cell => (cell.getD "").toList.all Char.isDigit then
    .int (text.toList.foldl (fun n c => 10 * n + (c.toNat - 48)) 0 : Nat)
  else .str text

def officeText (code : String) : String := "code,city\n" ++ code ++ ",Bonn\n"

def officeFiles (code : String) : DictionaryFiles where
  resolve location := "/dictionaries/" ++ location
  readBytes _ := .ok ((officeText code).toList.map fun c => UInt8.ofNat c.toNat)
  sha256 raw := toString raw.length
  decode _ _ := .ok (officeText code)
  readCsv := {
    table := fun _ _ => .ok (officeTable code)
    castCell := fun cells text => .ok (castPlain cells text) }

def officeSpec (contentSha256 : String) : CompiledDictionarySpec where
  dictName := "offices"
  keyColumn := "code"
  valueColumns := [{ name := "city" }]
  location := "offices.csv"
  contentSha256 := contentSha256
  rowCount := 1
  valueColumns_ne := List.cons_ne_nil _ _
  columns_nodup := by decide

/-- A code with leading zeros is read as an integer, and its text finds nothing. -/
theorem leading_zeros_lost : ∃ (files : DictionaryFiles) (compiled : CompiledDictionarySpec)
    (loaded : LoadedDictionary) (raw : List UInt8) (table : TextTable),
    compiled.load files = .ok loaded ∧
      files.readBytes (files.resolve compiled.location) = .ok raw ∧
      compiled.fileTable files raw = .ok table ∧
      table.rows.map compiled.keyText = [some "007"] ∧
      loaded.lookup "007" none none = .ok [] ∧ ¬loaded.FindsFileRows table := by
  refine ⟨officeFiles "007",officeSpec "19",
    ⟨officeSpec "19",[[("code",.int 7),("city",.str "Bonn")]],[("v:7",[0])]⟩,
    _,officeTable "007",by rfl,rfl,by rfl,by rfl,by rfl,?_⟩
  intro h
  obtain ⟨out,hout,hrow⟩ := h.found ([("code",some "007"),("city",some "Bonn")],
    [("code",.int 7),("city",.str "Bonn")]) List.mem_cons_self "007" rfl
  cases hout
  exact List.not_mem_nil hrow

theorem finds_office_rows :
    (⟨officeSpec "19",[[("code",.str "A07"),("city",.str "Bonn")]],[("v:A07",[0])]⟩ :
      LoadedDictionary).FindsFileRows (officeTable "A07") := by
  have hload : (officeSpec "19").load (officeFiles "A07") =
    .ok ⟨officeSpec "19",[[("code",.str "A07"),("city",.str "Bonn")]],[("v:A07",[0])]⟩ := by rfl
  have hmeet : (officeSpec "19").KeysMeet (officeFiles "A07").readCsv (officeTable "A07") :=
    CompiledDictionarySpec.keysMeet_of_text fun text => rfl
  exact (CompiledDictionarySpec.finds_file_rows_iff hload rfl (by rfl)).mpr hmeet

end NexusEtl
