import NexusEtl.CacheDsl

/-!
# Rows of the cache

The generic handler keeps one table for each dataset. It reads a write model
column by column, looks for the row with the same primary key and updates or
inserts. A table is the list of its rows; what SQLite does with a value that
does not fit its column, and with a NULL in a rowid, is part of the model.
-/

set_option autoImplicit false

namespace NexusEtl
open NexusEtl.Library

inductive SqliteType
  | text | integer | real
  deriving DecidableEq, Repr

/-- `map_sqlite_type` -/
def mapSqliteType : CacheFieldType → SqliteType
  | .string => .text
  | .int => .integer
  | .bool => .integer
  | .float => .real
  | .datetime => .text
  | .json => .text

inductive SqliteFailure
  | noValue (name : String)
  | unsupported (name : String)
  | tooLarge (name : String)
  | datatypeMismatch (name : String)
  | notUnique (columns : List String)
  deriving DecidableEq, Repr

/-- What the model leaves to the database library: how a number reads as text and
a text as a number, which rowid is next, and the exceptions. -/
structure Sqlite where
  realText : Rat → String
  numberOf : String → Option Rat
  newRowid : List Int → Int
  newRowid_fresh : ∀ ids, newRowid ids ∉ ids
  failure : SqliteFailure → PyException

abbrev CacheRow := Fields

namespace Sqlite

variable (sqlite : Sqlite)

def inRange (n : Int) : Bool := decide (-2^63 ≤ n ∧ n < 2^63)

/-- A parameter of a statement: booleans are integers, containers have no form. -/
def bind (name : String) : Value → Except PyException Value
  | .bool b => .ok (.int (if b then 1 else 0))
  | .int n => if inRange n then .ok (.int n) else .error (sqlite.failure (.tooLarge name))
  | .list _ => .error (sqlite.failure (.unsupported name))
  | .dict _ => .error (sqlite.failure (.unsupported name))
  | v => .ok v

def numeric (q : Rat) : Value := if q.den = 1 ∧ inRange q.num then .int q.num else .float q

/-- The form that a column of the type gives a value, by its affinity. -/
def stored : SqliteType → Value → Value
  | .text, .int n => .str (toString n)
  | .text, .float q => .str (sqlite.realText q)
  | .integer, .float q => numeric q
  | .integer, .str s => ((sqlite.numberOf s).map numeric).getD (.str s)
  | .real, .int n => .float n
  | .real, .str s => ((sqlite.numberOf s).map Value.float).getD (.str s)
  | _, v => v

end Sqlite

/-! ## The table -/

namespace CacheSpec

variable (spec : CacheSpec)

def column? (name : String) : Option FieldSpec := spec.fields.find? fun f => f.name == name

def keyOf (row : CacheRow) : List Value := spec.primaryKey.map (Fields.read row)

/-- The column that stands for the rowid: a single INTEGER primary key. -/
def rowidColumn : Option String :=
  match spec.primaryKey with
  | [name] => if (spec.column? name).any (fun f => mapSqliteType f.type = .integer) then some name
      else none
  | _ => none

/-- Rows agree on the columns of a unique index only where one of them is NULL. -/
def Distinct (columns : List String) (rows : List CacheRow) : Prop :=
  (((rows.map fun row => columns.map (Fields.read row))).filter (Value.null ∉ ·)).Nodup

instance (columns : List String) (rows : List CacheRow) : Decidable (Distinct columns rows) :=
  inferInstanceAs (Decidable (List.Nodup _))

def constraints : List (List String) := spec.primaryKey::spec.uniqueIndexes

/-- What the database enforces on a table. -/
structure Sound (rows : List CacheRow) : Prop where
  columns : ∀ row ∈ rows, Dict.keys row = spec.names
  distinct : ∀ columns ∈ spec.constraints, Distinct columns rows

theorem sound_nil : spec.Sound [] where
  columns := by simp
  distinct := by simp [Distinct]

end CacheSpec

namespace Sqlite

variable (sqlite : Sqlite) (spec : CacheSpec)

/-- A named parameter of the statements on a column, in the form the column stores. -/
def parameter (values : Fields) (name : String) : Except PyException Value :=
  match spec.column? name with
  | none => .error (sqlite.failure (.noValue name))
  | some f => (sqlite.bind name (Fields.read values name)).map
      (sqlite.stored (mapSqliteType f.type))

def parameters (values : Fields) (names : List String) : Except PyException Fields :=
  names.mapM fun name => return (name,← sqlite.parameter spec values name)

/-- `WHERE a = :a AND b = :b`; a comparison with NULL does not hold. -/
def selects (key : Fields) (row : CacheRow) : Bool :=
  key.all fun (name,v) => v != .null && Fields.read row name == v

/-- `SET a = :a, b = :b` -/
def assign (sets : Fields) (row : CacheRow) : CacheRow :=
  row.map fun (name,v) => (name,(Dict.get? sets name).getD v)

def checked (rows : List CacheRow) : Except PyException (List CacheRow) :=
  match spec.constraints.find? fun columns => !decide (CacheSpec.Distinct columns rows) with
  | some columns => .error (sqlite.failure (.notUnique columns))
  | none => .ok rows

def rowids (name : String) (rows : List CacheRow) : List Int :=
  rows.filterMap fun row => match Fields.read row name with
    | .int n => some n
    | _ => none

/-- The row of an INSERT: a NULL in the rowid becomes the next rowid. -/
def withRowid (rows : List CacheRow) (row : CacheRow) : Except PyException CacheRow :=
  match spec.rowidColumn with
  | none => .ok row
  | some name => match Fields.read row name with
    | .int _ => .ok row
    | .null => .ok (Dict.set row name (.int (sqlite.newRowid (rowids name rows))))
    | _ => .error (sqlite.failure (.datatypeMismatch name))

end Sqlite

/-! ## The handler -/

/-- `field.source or field.name` -/
def FieldSpec.key (f : FieldSpec) : String := (f.source.filter (· ≠ "")).getD f.name

def FieldSpec.extract (f : FieldSpec) (writeModel : Fields) : Value :=
  match f.type, Fields.read writeModel f.key with
  | .bool, .bool b => .int (if b then 1 else 0)
  | .bool, .int n => .int (if n ≠ 0 then 1 else 0)
  | _, raw => raw

namespace GenericCacheHandler

/-- `_extract_values` -/
def extractValues (fields : List FieldSpec) (writeModel : Fields) : Fields :=
  fields.foldl (fun values f => Dict.set values f.name (f.extract writeModel)) []

/-- `_validate_required` -/
def validateRequired (fields : List FieldSpec) (values : Fields) (dataset : String) :
    Except PyException Unit :=
  fields.forM fun f =>
    if !f.nullable && isEmptyValue (Fields.read values f.name) then
      throw ⟨"ValueError","Missing required cache field: " ++ f.name ++ " (dataset=" ++ dataset ++
        ")"⟩
    else return ()

def update (sqlite : Sqlite) (spec : CacheSpec) (rows : List CacheRow) (values key : Fields) :
    Except PyException (UpsertResult × List CacheRow) :=
  let updateFields := spec.names.filter (· ∉ spec.primaryKey)
  if updateFields = [] then .ok (.updated,rows)
  else do
    let sets ← sqlite.parameters spec values updateFields
    let updated ← sqlite.checked spec
      (rows.map fun row => if Sqlite.selects key row then Sqlite.assign sets row else row)
    return (.updated,updated)

def insertNew (sqlite : Sqlite) (spec : CacheSpec) (rows : List CacheRow) (values : Fields) :
    Except PyException (UpsertResult × List CacheRow) := do
  let bound ← sqlite.parameters spec values (Dict.keys values)
  let row ← sqlite.withRowid spec rows bound
  let inserted ← sqlite.checked spec (rows ++ [row])
  return (.inserted,inserted)

def upsert (sqlite : Sqlite) (spec : CacheSpec) (rows : List CacheRow) (writeModel : Fields) :
    Except PyException (UpsertResult × List CacheRow) := do
  let values := extractValues spec.fields writeModel
  validateRequired spec.fields values spec.dataset
  if spec.primaryKey = [] then
    throw ⟨"ValueError","Primary key is required for cache spec " ++ spec.dataset⟩
  else
    let key ← sqlite.parameters spec values spec.primaryKey
    if rows.any (Sqlite.selects key) then update sqlite spec rows values key
    else insertNew sqlite spec rows values

end GenericCacheHandler

end NexusEtl
