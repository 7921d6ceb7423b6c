import NexusEtl.EnrichDsl
import NexusEtl.ExactFind

/-!
# Canonicalized and exact lookups in the cache

The exact lookup lets the database compare. The canonicalized one reads every row,
takes the value under the name that the provider gives, turns what is not true into
the empty text, and compares canonical forms. On which tables and values the second
finds what the first finds is settled here.
-/

set_option autoImplicit false

namespace NexusEtl
open NexusEtl.Library

structure CachedTable where
  spec : CacheSpec
  rows : List CacheRow

abbrev CacheDatasets := Dict String CachedTable

def CacheDatasets.getHandler (datasets : CacheDatasets) (dataset : String) :
    Except PyException CachedTable :=
  match Dict.get? datasets dataset with
  | none => .error ⟨"ValueError","Unsupported cache dataset: " ++ dataset⟩
  | some table => .ok table

def SearchMode.named (mode : String) : SearchMode :=
  if mode = "exact" then .exact
  else if mode = "like" then .like
  else if mode = "in" then .inValues
  else .other mode

namespace SqliteCacheRepository

variable (sqlite : Sqlite)

def findIn (datasets : CacheDatasets) (dataset : String) (filters : Fields)
    (includeDeleted : Bool) (mode : SearchMode) : Except PyException (List CacheRow) := do
  let table ← datasets.getHandler dataset
  find sqlite table.spec table.rows filters includeDeleted mode

def readAllOf (datasets : CacheDatasets) (dataset : String) (includeDeleted : Bool) :
    Except PyException (List CacheRow) := do
  let table ← datasets.getHandler dataset
  readAll sqlite table.spec table.rows includeDeleted

/-- `_cache_by_field` -/
def cacheByField (datasets : CacheDatasets) (value : Value) (args : Fields) :
    Except PyException (List Fields) := do
  let dataset ← ProviderGateway.requiredArg args "dataset"
  let field ← ProviderGateway.requiredArg args "field"
  findIn sqlite datasets dataset [(field,value)] (Fields.read args "include_deleted").truthy
    (.named (ProviderGateway.modeOf args))

/-- `_cache_exists_by_field` -/
def cacheExistsByField (datasets : CacheDatasets) (value : Value) (args : Fields) :
    Except PyException (Option Value) :=
  (cacheByField sqlite datasets value args).map fun rows => rows.head?.map .dict

/-- The providers that read the cache. -/
def gateway : ProviderGateway CacheDatasets where
  lookup := [("cache.by_field",cacheByField sqlite)]
  existing := [("cache.exists_by_field",cacheExistsByField sqlite)]
  readAll := readAllOf sqlite

/-- `str(row.get(field) or "")` -/
def fieldText (row : CacheRow) (field : String) : String :=
  if (Fields.read row field).truthy then (Fields.read row field).pyStr else ""

end SqliteCacheRepository

open SqliteCacheRepository

/-! ## The two lookups of a field -/

/-- The arguments of a lookup in one table, by a name that `find` accepts. -/
structure FieldLookup where
  datasets : CacheDatasets
  args : Fields
  dataset : String
  field : String
  table : CachedTable
  column : String
  dataset_arg : ProviderGateway.requiredArg args "dataset" = .ok dataset
  field_arg : ProviderGateway.requiredArg args "field" = .ok field
  mode_arg : ProviderGateway.modeOf args = "exact"
  handler : datasets.getHandler dataset = .ok table
  accepted : Dict.get? (buildFieldMap table.spec.fields) field = some column
  created : GenericCacheHandler.ensureSchema table.spec = .ok ()

namespace FieldLookup

variable (l : FieldLookup) (sqlite : Sqlite) (lib : TextLibrary)
  (ops : List CompiledCanonicalizeOp) (value : Value)

def includeDeleted : Bool := (Fields.read l.args "include_deleted").truthy

def exact : Except PyException (List CacheRow) := cacheByField sqlite l.datasets value l.args

def canonicalized : Except PyException (List CacheRow) :=
  (gateway sqlite).lookupCanonicalized lib ops l.datasets value l.args

/-- The rows that are not deleted, or all. -/
def live : Except PyException (List CacheRow) :=
  readAll sqlite l.table.spec l.table.rows l.includeDeleted

def type : SqliteType := Sqlite.columnType l.table.spec l.column

/-- The row has a value in the column, with the canonical form. -/
def Canonical (key : String) (row : CacheRow) : Bool :=
  Fields.read row l.column != .null &&
    decide (lib.canonicalizeScalar ops (Fields.read row l.column).pyStr = .ok key)

/-- The canonicalized lookup finds the rows with the canonical form of the value, and so all
that the exact lookup finds. -/
structure Refines : Prop where
  exactly : ∀ rows, l.live sqlite = .ok rows →
    ∃ key, lib.canonicalizeScalar ops value.pyStr = .ok key ∧
      l.canonicalized sqlite lib ops value = .ok (rows.filter (l.Canonical lib ops key))
  covers : ∀ found, l.exact sqlite value = .ok found → value ≠ .null →
    ∃ result, l.canonicalized sqlite lib ops value = .ok result ∧ ∀ row ∈ found, row ∈ result
  plain : ops = [] → l.type = .text → value ≠ .null → ∀ found, l.exact sqlite value = .ok found →
    l.canonicalized sqlite lib ops value = .ok found
  quiet : ∀ found, l.exact sqlite value = .ok found →
    ∃ result, l.canonicalized sqlite lib ops value = .ok result

/-- The row is read by another text than that of its column. -/
def Misread (row : CacheRow) : Prop :=
  Fields.read row l.column = .null ∨ fieldText row l.field ≠ (Fields.read row l.column).pyStr

/-- What the lookup needs of the rows and of the value. -/
structure Fits (rows : List CacheRow) (key : String) : Prop where
  read : ∀ row ∈ rows, ∃ form, lib.canonicalizeScalar ops (fieldText row l.field) = .ok form ∧
    (l.Misread row → (form = key ↔ l.Canonical lib ops key row = true))
  stored : ∀ bound, sqlite.bind l.column value = .ok bound → value ≠ .null →
    ∀ row ∈ rows, sqlite.equal l.table.spec l.column bound row = true →
      lib.canonicalizeScalar ops (sqlite.stored l.type bound).pyStr = .ok key
  text : ops = [] → l.type = .text → value ≠ .null →
    ∀ bound, sqlite.bind l.column value = .ok bound → ∀ row ∈ rows,
      Fields.read row l.column ≠ .null → (Fields.read row l.column).pyStr = value.pyStr →
        Fields.read row l.column = sqlite.stored l.type bound

variable {l sqlite lib ops value}

theorem canonicalized_eq : l.canonicalized sqlite lib ops value =
    (do
      let key ← lib.canonicalizeScalar ops value.pyStr
      let rows ← l.live sqlite
      rows.filterM fun row => do
        let form ← lib.canonicalizeScalar ops (fieldText row l.field)
        return form == key) := by
  have hread : readAllOf sqlite l.datasets l.dataset l.includeDeleted = l.live sqlite := by
    rw [readAllOf, l.handler]
    rfl
  rw [← hread]
  unfold canonicalized ProviderGateway.lookupCanonicalized
  simp only [l.dataset_arg, l.field_arg, l.mode_arg, ne_eq, not_true_eq_false, if_false]
  rfl

theorem canonicalized_ok_iff {result : List CacheRow} :
    l.canonicalized sqlite lib ops value = .ok result ↔
      ∃ key rows, lib.canonicalizeScalar ops value.pyStr = .ok key ∧ l.live sqlite = .ok rows ∧
        ∃ form : CacheRow → String,
          (∀ row ∈ rows, lib.canonicalizeScalar ops (fieldText row l.field) = .ok (form row)) ∧
            result = rows.filter fun row => form row == key := by
  rw [canonicalized_eq, bind_ok_iff]
  constructor
  · rintro ⟨key,hkey,h⟩
    rw [bind_ok_iff] at h
    obtain ⟨rows,hrows,h⟩ := h
    obtain ⟨p,hp,rfl⟩ := filterM_ok_iff.mp h
    have hforms : ∀ row ∈ rows, ∃ form,
        lib.canonicalizeScalar ops (fieldText row l.field) = .ok form ∧ (form == key) = p row := by
      intro row hrow
      obtain ⟨form,hform,hpure⟩ := bind_ok_iff.mp (hp row hrow)
      exact ⟨form,hform,Except.ok.inj hpure⟩
    choose! form hform using hforms
    exact ⟨key,rows,hkey,hrows,form,fun row hrow => (hform row hrow).1,
      List.filter_congr fun row hrow => (hform row hrow).2.symm⟩
  · rintro ⟨key,rows,hkey,hrows,form,hform,rfl⟩
    refine ⟨key,hkey,bind_ok_iff.mpr ⟨rows,hrows,filterM_ok_iff.mpr ⟨_,?_,rfl⟩⟩⟩
    intro row hrow
    exact bind_ok_iff.mpr ⟨form row,hform row hrow,rfl⟩

theorem exact_ok_iff {found : List CacheRow} :
    l.exact sqlite value = .ok found ↔ ∃ bound rows, sqlite.bind l.column value = .ok bound ∧
      l.live sqlite = .ok rows ∧
        found = rows.filter (sqlite.equal l.table.spec l.column bound) := by
  have hmode : SearchMode.named (ProviderGateway.modeOf l.args) = .exact := by
    rw [l.mode_arg]
    rfl
  have hresolve := resolve_of_mem (apart_of_ensureSchema l.created) (mem_names_of_get? l.accepted)
  have hfind : l.exact sqlite value = sqlite.select l.table.spec l.table.rows
      [.equals l.column value] (!l.includeDeleted &&
        Dict.contains (buildFieldMap l.table.spec.fields) deletionDate) := by
    rw [exact, cacheByField, l.dataset_arg, l.field_arg, hmode]
    simp only [bind, Except.bind, SqliteCacheRepository.findIn, l.handler]
    rw [find, if_neg (List.cons_ne_nil _ _), buildWhere, l.accepted]
    rfl
  have hprepare : [WhereClause.equals l.column value].mapM (Sqlite.prepare l.table.spec) =
      .ok [(l.column,.equals l.column value)] :=
    mapM_eq_map (g := fun clause : WhereClause => (clause.column,clause)) fun clause hclause => by
      obtain rfl := List.mem_singleton.mp hclause
      simp only [Sqlite.prepare, WhereClause.column, hresolve]
      rfl
  rw [hfind, live, readAll, Sqlite.select, Sqlite.select, hprepare]
  cases hdeletion : Sqlite.deletionColumn l.table.spec (!l.includeDeleted &&
      Dict.contains (buildFieldMap l.table.spec.fields) deletionDate) with
  | error e => simp [bind, Except.bind, pure, Except.pure]
  | ok deletion =>
    cases hbind : sqlite.bind l.column value with
    | error e => simp [bind, Except.bind, pure, Except.pure, Sqlite.bindClause, hbind, Except.map,
        WhereClause.values]
    | ok bound =>
      simp [bind, Except.bind, pure, Except.pure, Sqlite.bindClause, hbind, Except.map,
        WhereClause.values, Sqlite.holds, List.filter_filter, eq_comm]

/-- A row that is not misread is compared by the text of its column. -/
theorem canonical_of_not_misread {row : CacheRow} {key form : String}
    (h : ¬ l.Misread row) (hform : lib.canonicalizeScalar ops (fieldText row l.field) = .ok form) :
    form = key ↔ l.Canonical lib ops key row = true := by
  rw [Misread, not_or, not_not] at h
  rw [h.2] at hform
  simp [Canonical, h.1, hform]

/-- The lookup finds the rows with the canonical form where every row is read to that end. -/
theorem canonicalized_iff {rows : List CacheRow} (hrows : l.live sqlite = .ok rows) {key : String}
    (hkey : lib.canonicalizeScalar ops value.pyStr = .ok key) :
    l.canonicalized sqlite lib ops value = .ok (rows.filter (l.Canonical lib ops key)) ↔
      ∀ row ∈ rows, ∃ form, lib.canonicalizeScalar ops (fieldText row l.field) = .ok form ∧
        (l.Misread row → (form = key ↔ l.Canonical lib ops key row = true)) := by
  rw [canonicalized_ok_iff]
  constructor
  · rintro ⟨key',rows',hkey',hrows',form,hform,hresult⟩
    obtain rfl := Except.ok.inj (hkey.symm.trans hkey')
    obtain rfl := Except.ok.inj (hrows.symm.trans hrows')
    intro row hrow
    refine ⟨form row,hform row hrow,fun _ => ?_⟩
    have hmem : row ∈ rows.filter (l.Canonical lib ops key) ↔
        row ∈ rows.filter fun row => form row == key := by rw [hresult]
    simpa [List.mem_filter, hrow] using hmem.symm
  · intro h
    choose! form hform using h
    refine ⟨key,rows,hkey,hrows,form,fun row hrow => (hform row hrow).1,?_⟩
    apply List.filter_congr
    intro row hrow
    rw [Bool.eq_iff_iff, beq_iff_eq]
    by_cases hmis : l.Misread row
    · exact ((hform row hrow).2 hmis).symm
    · exact (canonical_of_not_misread hmis (hform row hrow).1).symm

theorem exists_live {found : List CacheRow} (h : l.exact sqlite value = .ok found) :
    ∃ rows, l.live sqlite = .ok rows := by
  obtain ⟨-,rows,-,hrows,-⟩ := exact_ok_iff.mp h
  exact ⟨rows,hrows⟩

theorem Refines.fits (h : l.Refines sqlite lib ops value) {rows : List CacheRow}
    (hrows : l.live sqlite = .ok rows) :
    ∃ key, lib.canonicalizeScalar ops value.pyStr = .ok key ∧
      l.Fits sqlite lib ops value rows key := by
  obtain ⟨key,hkey,hexact⟩ := h.exactly rows hrows
  refine ⟨key,hkey,(canonicalized_iff hrows hkey).mp hexact,?_,?_⟩
  · intro bound hbound hne row hrow hequal
    obtain ⟨result,hresult,hcovers⟩ :=
      h.covers _ (exact_ok_iff.mpr ⟨bound,rows,hbound,hrows,rfl⟩) hne
    obtain rfl := Except.ok.inj (hexact.symm.trans hresult)
    have hmem := hcovers row (List.mem_filter.mpr ⟨hrow,hequal⟩)
    have hcanonical := (List.mem_filter.mp hmem).2
    simp only [Canonical, Bool.and_eq_true, decide_eq_true_eq] at hcanonical
    simp only [Sqlite.equal, Bool.and_eq_true, beq_iff_eq] at hequal
    rw [← hcanonical.2, hequal.2]
    rfl
  · intro hops htype hne bound hbound row hrow hnull htext
    have hplain := h.plain hops htype hne _ (exact_ok_iff.mpr ⟨bound,rows,hbound,hrows,rfl⟩)
    have hlists := Except.ok.inj (hexact.symm.trans hplain)
    have hkey' : lib.canonicalizeScalar ops (Fields.read row l.column).pyStr = .ok key := by
      rw [htext, hkey]
    have hmem : row ∈ rows.filter (l.Canonical lib ops key) :=
      List.mem_filter.mpr ⟨hrow,by simp [Canonical, hnull, hkey']⟩
    rw [hlists, List.mem_filter] at hmem
    simp only [Sqlite.equal, Bool.and_eq_true, beq_iff_eq] at hmem
    exact hmem.2.2

theorem canonicalizeScalar_nil (s : String) : lib.canonicalizeScalar [] s = .ok s := rfl

/-- With no operations the canonical form is the text itself. -/
theorem canonical_eq_equal {rows : List CacheRow} {key : String}
    (hfits : l.Fits sqlite lib [] value rows key) (htype : l.type = .text) (hne : value ≠ .null)
    (hkey : key = value.pyStr) {bound : Value} (hbound : sqlite.bind l.column value = .ok bound)
    {row : CacheRow} (hrow : row ∈ rows) :
    l.Canonical lib [] key row = sqlite.equal l.table.spec l.column bound row := by
  have hform : sqlite.stored (Sqlite.columnType l.table.spec l.column) bound =
      sqlite.stored l.type bound := rfl
  rw [Bool.eq_iff_iff, Sqlite.equal, hform]
  simp only [Canonical, Bool.and_eq_true, bne_iff_ne, ne_eq, decide_eq_true_eq, beq_iff_eq,
    canonicalizeScalar_nil, Except.ok.injEq]
  constructor
  · rintro ⟨hnull,htext⟩
    have hstored := hfits.text rfl htype hne bound hbound row hrow hnull (htext.trans hkey)
    exact ⟨hstored ▸ hnull,hstored⟩
  · rintro ⟨hnull,hstored⟩
    have hequal : sqlite.equal l.table.spec l.column bound row = true := by
      simp [Sqlite.equal, hform, hnull, hstored]
    have htext := hfits.stored bound hbound hne row hrow hequal
    rw [hstored]
    exact ⟨hnull,Except.ok.inj htext⟩

end FieldLookup

def plainTexts : TextLibrary := ⟨Text.lower,fun _ _ s => .ok s⟩

/-- One employee, whose column `code` has the source name `tab_num`. -/
def tabNumLookup : FieldLookup where
  datasets := [("employees",⟨datedEmployees,
    [[("_id",.str "1"),("code",.str "e7"),("deletion_date",.null)]]⟩)]
  args := [("dataset",.str "employees"),("field",.str "tab_num")]
  dataset := "employees"
  field := "tab_num"
  table := ⟨datedEmployees,[[("_id",.str "1"),("code",.str "e7"),("deletion_date",.null)]]⟩
  column := "code"
  dataset_arg := rfl
  field_arg := rfl
  mode_arg := rfl
  handler := rfl
  accepted := by decide
  created := datedEmployees_created

end NexusEtl
