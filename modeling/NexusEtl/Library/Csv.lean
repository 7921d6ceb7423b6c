import Mathlib.Data.List.Basic

/-!
# The csv reader

A text is read by lines, each with its line end. The reader takes one character
after another, and the end of every line, through the states of a record; a
quoted field may go on over several lines. A blank line is a row without fields.
-/

set_option autoImplicit false

namespace NexusEtl.Library.Csv

/-! ## Lines -/

/-- The lines of a text, of which `current` has been read already, in reverse. -/
def linesFrom : List Char → List Char → List (List Char)
  | current, [] => if current = [] then [] else [current.reverse]
  | current, '\r' :: '\n' :: cs => ('\n' :: '\r' :: current).reverse::linesFrom [] cs
  | current, c::cs =>
    if c = '\n' ∨ c = '\r' then (c::current).reverse::linesFrom [] cs
    else linesFrom (c::current) cs

def lines (text : String) : List (List Char) := linesFrom [] text.toList

/-! ## Records -/

inductive State
  | startRecord | startField | inField | inQuotedField | quoteInQuotedField | eatCrnl
  deriving DecidableEq, Repr

/-- The fields of the record so far and the characters of the field being read. -/
structure Reader where
  state : State
  fields : List String
  field : List Char
  deriving DecidableEq, Repr

def Reader.start : Reader := ⟨.startRecord,[],[]⟩

structure Dialect where
  delimiter : Char
  quotechar : Char := '"'
  fieldLimit : Nat := 131072
  deriving DecidableEq, Repr

variable (dialect : Dialect)

def Reader.saveField (r : Reader) (state : State) : Reader :=
  ⟨state,r.fields ++ [String.ofList r.field],[]⟩

def Reader.addChar (r : Reader) (state : State) (c : Char) : Except String Reader :=
  if dialect.fieldLimit ≤ r.field.length then
    .error ("field larger than field limit (" ++ toString dialect.fieldLimit ++ ")")
  else .ok ⟨state,r.fields,r.field ++ [c]⟩

def isNewline (c : Char) : Bool := c = '\n' || c = '\r'

def startField (r : Reader) : Option Char → Except String Reader
  | none => .ok (r.saveField .startRecord)
  | some c =>
    if isNewline c then .ok (r.saveField .eatCrnl)
    else if c = dialect.quotechar then .ok { r with state := .inQuotedField }
    else if c = dialect.delimiter then .ok (r.saveField .startField)
    else r.addChar dialect .inField c

/-- One character, or the end of a line. -/
def processChar (r : Reader) (c : Option Char) : Except String Reader :=
  match r.state, c with
  | .startRecord, none => .ok r
  | .startRecord, some c =>
    if isNewline c then .ok { r with state := .eatCrnl } else startField dialect r (some c)
  | .startField, c => startField dialect r c
  | .inField, none => .ok (r.saveField .startRecord)
  | .inField, some c =>
    if isNewline c then .ok (r.saveField .eatCrnl)
    else if c = dialect.delimiter then .ok (r.saveField .startField)
    else r.addChar dialect .inField c
  | .inQuotedField, none => .ok r
  | .inQuotedField, some c =>
    if c = dialect.quotechar then .ok { r with state := .quoteInQuotedField }
    else r.addChar dialect .inQuotedField c
  | .quoteInQuotedField, none => .ok (r.saveField .startRecord)
  | .quoteInQuotedField, some c =>
    if c = dialect.quotechar then r.addChar dialect .inQuotedField c
    else if c = dialect.delimiter then .ok (r.saveField .startField)
    else if isNewline c then .ok (r.saveField .eatCrnl)
    else r.addChar dialect .inField c
  | .eatCrnl, none => .ok { r with state := .startRecord }
  | .eatCrnl, some c =>
    if isNewline c then .ok r
    else .error ("new-line character seen in unquoted field - do you need to open the file in " ++
      "universal-newline mode?")

def processLine (r : Reader) (line : List Char) : Except String Reader :=
  (line.map some ++ [none]).foldlM (processChar dialect) r

/-- The rows that a reader gives, and the error by which it ends. -/
def rowsFrom : List (List Char) → Reader → List (List String) × Option String
  | [], r =>
    if r.field ≠ [] ∨ r.state = .inQuotedField then ([(r.saveField .startRecord).fields],none)
    else ([],none)
  | line::rest, r =>
    match processLine dialect r line with
    | .error message => ([],some message)
    | .ok r =>
      if r.state = .startRecord then
        (r.fields::(rowsFrom rest .start).1,(rowsFrom rest .start).2)
      else rowsFrom rest r

def rows (text : String) : List (List String) × Option String :=
  rowsFrom dialect (lines text) .start

/-- A first line that is a whole record is the first row, before those of the rest. -/
theorem rows_of_line {dialect : Dialect} {line : List Char} {text rest : String} {row : List String}
    (hlines : lines text = line::lines rest)
    (hline : processLine dialect .start line = .ok ⟨.startRecord,row,[]⟩) :
    rows dialect text = (row::(rows dialect rest).1,(rows dialect rest).2) := by
  rw [rows, hlines, rowsFrom, hline]
  rfl

example : rows ⟨',','"',131072⟩ "a,\"b\n\"\"c\"\n\nd\n" = ([["a","b\n\"c"],[],["d"]],none) := by
  decide

end NexusEtl.Library.Csv
