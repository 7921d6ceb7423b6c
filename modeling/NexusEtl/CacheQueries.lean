import NexusEtl.CachedRows
import NexusEtl.Library.LikePattern

/-!
# Queries of the cache

The repository finds the rows of a dataset by filters on column names or on the
source names that columns declare. Both kinds of names share one map, and a
statement names the column that the map gives. The deleted rows are left out by
a condition on a column with a fixed name.
-/

set_option autoImplicit false

namespace NexusEtl
open NexusEtl.Library

inductive SearchMode
  | exact | like | inValues
  | other (name : String)
  deriving DecidableEq, Repr

/-- A condition of a WHERE clause, before its values are bound. -/
inductive WhereClause
  | equals (column : String) (value : Value)
  | like (column : String) (value : Value)
  | isIn (column : String) (values : List Value)
  deriving DecidableEq, Repr

/-- The source name of a column, which an empty text does not declare. -/
def FieldSpec.alias? (f : FieldSpec) : Option String := f.source.filter (· ≠ "")

def deletionDate : String := "deletion_date"

/-! ## The statements -/

namespace WhereClause

def column : WhereClause → String
  | .equals column _ => column
  | .like column _ => column
  | .isIn column _ => column

def values : WhereClause → List Value
  | .equals _ value => [value]
  | .like _ value => [value]
  | .isIn _ values => values

end WhereClause

namespace Sqlite

variable (sqlite : Sqlite) (spec : CacheSpec)

def noSuchColumn (name : String) : PyException :=
  ⟨"OperationalError","no such column: " ++ name⟩

/-- The column that a statement reads under a name; case does not count. -/
def resolve (name : String) : Except PyException String :=
  match spec.names.find? fun column => Text.lower column == Text.lower name with
  | some column => .ok column
  | none => .error (noSuchColumn name)

def columnType (column : String) : SqliteType :=
  ((spec.column? column).map fun f => mapSqliteType f.type).getD .text

/-- `column = ?`: the value takes the form of the column, and NULL equals nothing. -/
def equal (column : String) (bound : Value) (row : CacheRow) : Bool :=
  let form := sqlite.stored (columnType spec column) bound
  form != .null && Fields.read row column == form

def asText : Value → Option String
  | .str s => some s
  | .int n => some (toString n)
  | .float q => some (sqlite.realText q)
  | _ => none

def likeValue (text pattern : Value) : Bool :=
  match sqlite.asText text, sqlite.asText pattern with
  | some text, some pattern => like pattern.toList text.toList
  | _, _ => false

/-- A clause with the column that it reads and the values that are bound to it. -/
def holds (column : String) (bound : List Value) (row : CacheRow) : WhereClause → Bool
  | .equals _ _ => bound.any fun v => sqlite.equal spec column v row
  | .like _ _ => bound.any fun v => sqlite.likeValue (Fields.read row column) v
  | .isIn _ _ => bound.any fun v => sqlite.equal spec column v row

/-- A clause that is ready to run. -/
def prepare (clause : WhereClause) : Except PyException (String × WhereClause) :=
  (resolve spec clause.column).map fun column => (column,clause)

def bindClause (prepared : String × WhereClause) :
    Except PyException (String × WhereClause × List Value) :=
  (prepared.2.values.mapM (sqlite.bind prepared.1)).map fun bound =>
    (prepared.1,prepared.2,bound)

/-- The column of the condition `deletion_date IS NULL`. -/
def deletionColumn (deletionIsNull : Bool) : Except PyException (Option String) :=
  if deletionIsNull then (resolve spec deletionDate).map some else .ok none

/-- `SELECT * FROM table WHERE …`: names are looked up first, then values are bound. -/
def select (rows : List CacheRow) (clauses : List WhereClause) (deletionIsNull : Bool) :
    Except PyException (List CacheRow) := do
  let prepared ← clauses.mapM (prepare spec)
  let deletion ← deletionColumn spec deletionIsNull
  let bound ← prepared.mapM sqlite.bindClause
  return rows.filter fun row =>
    (bound.all fun (column,clause,values) => sqlite.holds spec column values row clause) &&
      deletion.all fun column => Fields.read row column == .null

end Sqlite

/-! ## The repository -/

namespace SqliteCacheRepository

/-- `_build_field_map`: a later field replaces what an earlier one entered. -/
def buildFieldMap (fields : List FieldSpec) : Dict String String :=
  fields.foldl (fun mapping f =>
    let mapping := Dict.set mapping f.name f.name
    match f.alias? with
    | some source => Dict.set mapping source f.name
    | none => mapping) []

/-- The values of an IN search. -/
def valueList : Value → List Value
  | .null => []
  | .list values => values
  | v => [v]

/-- `_build_clause`; a search for one of no values has no clause. -/
def buildClause (column : String) (value : Value) :
    SearchMode → Except PyException (Option WhereClause)
  | .exact => .ok (some (.equals column value))
  | .like => .ok (some (.like column value))
  | .inValues => .ok (if valueList value = [] then none else some (.isIn column (valueList value)))
  | .other name => .error ⟨"ValueError","Unsupported search mode: " ++ name⟩

/-- The loop over the filters; `none` when a filter can match no row. -/
def buildWhere (dataset : String) (fieldMap : Dict String String) (mode : SearchMode) :
    Fields → Except PyException (Option (List WhereClause))
  | [] => .ok (some [])
  | (key,value)::filters =>
    match Dict.get? fieldMap key with
    | none => .error ⟨"ValueError","Unknown cache field '" ++ key ++ "' for dataset '" ++
        dataset ++ "'"⟩
    | some column =>
      match buildClause column value mode with
      | .error exc => .error exc
      | .ok none => .ok none
      | .ok (some clause) => (buildWhere dataset fieldMap mode filters).map
          (Option.map (clause :: ·))

variable (sqlite : Sqlite) (spec : CacheSpec)

def find (rows : List CacheRow) (filters : Fields) (includeDeleted : Bool) (mode : SearchMode) :
    Except PyException (List CacheRow) :=
  let fieldMap := buildFieldMap spec.fields
  if filters = [] then .error ⟨"ValueError","find() requires at least one filter"⟩
  else match buildWhere spec.dataset fieldMap mode filters with
    | .error exc => .error exc
    | .ok none => .ok []
    | .ok (some clauses) => sqlite.select spec rows clauses
        (!includeDeleted && Dict.contains fieldMap deletionDate)

def readAll (rows : List CacheRow) (includeDeleted : Bool) : Except PyException (List CacheRow) :=
  sqlite.select spec rows []
    (!includeDeleted && Dict.contains (buildFieldMap spec.fields) deletionDate)

end SqliteCacheRepository

namespace GenericCacheHandler

/-- The first name that repeats an earlier one but for case. -/
def duplicateColumn? : List String → List String → Option String
  | _, [] => none
  | seen, name::names =>
    if Text.lower name ∈ seen then some name
    else duplicateColumn? (Text.lower name :: seen) names

/-- `CREATE TABLE IF NOT EXISTS` -/
def createTable (spec : CacheSpec) : Except PyException Unit :=
  match duplicateColumn? [] spec.names with
  | some name => .error ⟨"OperationalError","duplicate column name: " ++ name⟩
  | none => .ok ()

/-- `ensure_schema`: whether the database takes the table and its indexes. -/
def ensureSchema (spec : CacheSpec) : Except PyException Unit := do
  spec.primaryKey.forM fun key =>
    if key ∈ spec.names then .ok ()
    else .error ⟨"ValueError","Primary key field '" ++ key ++ "' is missing in cache spec for " ++
      spec.dataset⟩
  createTable spec
  (spec.uniqueIndexes ++ spec.indexes).forM fun columns => columns.forM fun column =>
    (Sqlite.resolve spec column).map fun _ => ()

end GenericCacheHandler

end NexusEtl
