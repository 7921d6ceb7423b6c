import NexusEtl.Library.Dict
import NexusEtl.Text
import Mathlib.Data.Rat.Defs
import Mathlib.Algebra.Group.Nat.Defs

/-!
# Runtime values of the pipeline

Rows, records and metadata are string-keyed dictionaries of JSON-native
values. A float stands for the decimal number that its `repr` prints. The
operations follow the documented behaviour of the built-in types: equality
that identifies booleans and numbers, truth, text conversion and stripping.
-/

set_option autoImplicit false

namespace NexusEtl
open NexusEtl.Library

inductive Value where
  | null
  | bool (b : Bool)
  | int (n : Int)
  | float (q : Rat)
  | str (s : String)
  | list (items : List Value)
  | dict (fields : List (String × Value))
  deriving Repr, Inhabited

abbrev Fields := Dict String Value

namespace Value

mutual
def decEq : (a b : Value) → Decidable (a = b)
  | .null, .null => isTrue rfl
  | .bool a, .bool b => decidable_of_iff (a = b) (by simp)
  | .int a, .int b => decidable_of_iff (a = b) (by simp)
  | .float a, .float b => decidable_of_iff (a = b) (by simp)
  | .str a, .str b => decidable_of_iff (a = b) (by simp)
  | .list a, .list b =>
    match decEqList a b with
    | isTrue h => isTrue (by rw [h])
    | isFalse h => isFalse (by simpa using h)
  | .dict a, .dict b =>
    match decEqFields a b with
    | isTrue h => isTrue (by rw [h])
    | isFalse h => isFalse (by simpa using h)
  | .null, .bool _ | .null, .int _ | .null, .float _ | .null, .str _ | .null, .list _
  | .null, .dict _ | .bool _, .null | .bool _, .int _ | .bool _, .float _ | .bool _, .str _
  | .bool _, .list _ | .bool _, .dict _ | .int _, .null | .int _, .bool _ | .int _, .float _
  | .int _, .str _ | .int _, .list _ | .int _, .dict _ | .float _, .null | .float _, .bool _
  | .float _, .int _ | .float _, .str _ | .float _, .list _ | .float _, .dict _ | .str _, .null
  | .str _, .bool _ | .str _, .int _ | .str _, .float _ | .str _, .list _ | .str _, .dict _
  | .list _, .null | .list _, .bool _ | .list _, .int _ | .list _, .float _ | .list _, .str _
  | .list _, .dict _ | .dict _, .null | .dict _, .bool _ | .dict _, .int _ | .dict _, .float _
  | .dict _, .str _ | .dict _, .list _ => isFalse (by simp)

def decEqList : (a b : List Value) → Decidable (a = b)
  | [], [] => isTrue rfl
  | a::as, b::bs =>
    match decEq a b, decEqList as bs with
    | isTrue h, isTrue h' => isTrue (by rw [h, h'])
    | isFalse h, _ => isFalse (by simp [h])
    | _, isFalse h => isFalse (by simp [h])
  | [], _::_ | _::_, [] => isFalse (by simp)

def decEqFields : (a b : List (String × Value)) → Decidable (a = b)
  | [], [] => isTrue rfl
  | (k,a)::as, (l,b)::bs =>
    match decEq a b, decEqFields as bs with
    | isTrue h, isTrue h' => decidable_of_iff (k = l) (by simp [h, h'])
    | isFalse h, _ => isFalse (by simp [h])
    | _, isFalse h => isFalse (by simp [h])
  | [], _::_ | _::_, [] => isFalse (by simp)
end

instance : DecidableEq Value := decEq

/-- Booleans and numbers compare by their numeric value. -/
def number? : Value → Option Rat
  | .bool b => some (if b then 1 else 0)
  | .int n => some n
  | .float q => some q
  | _ => none

mutual
/-- The `==` of the runtime values; dictionaries compare without key order. -/
def pyEq : Value → Value → Bool
  | .null, .null => true
  | .str a, .str b => a == b
  | .list a, .list b => pyEqList a b
  | .dict a, .dict b => a.length == b.length && pyEqFields a b
  | a, b => match number? a, number? b with
    | some p, some q => p == q
    | _, _ => false

def pyEqList : List Value → List Value → Bool
  | [], [] => true
  | a::as, b::bs => pyEq a b && pyEqList as bs
  | _, _ => false

def pyEqFields : List (String × Value) → Fields → Bool
  | [], _ => true
  | (k,a)::as, b => (match Dict.get? b k with
    | some v => pyEq a v
    | none => false) && pyEqFields as b
end

def truthy : Value → Bool
  | .null => false
  | .bool b => b
  | .int n => n != 0
  | .float q => q != 0
  | .str s => s != ""
  | .list items => !items.isEmpty
  | .dict fields => !fields.isEmpty

def isNull : Value → Bool
  | .null => true
  | _ => false

/-- The test `value in (None, "")`. -/
def isBlank : Value → Bool
  | .null => true
  | .str s => s == ""
  | _ => false

theorem isNull_of_truthy {v : Value} (h : v.truthy = true) : v.isNull = false := by
  cases v with
  | null => cases h
  | _ => rfl

def typeName : Value → String
  | .null => "NoneType"
  | .bool _ => "bool"
  | .int _ => "int"
  | .float _ => "float"
  | .str _ => "str"
  | .list _ => "list"
  | .dict _ => "dict"

def decimalPlaces (den : Nat) : Nat → Nat → Nat
  | 0, k => k
  | fuel+1, k => if 10^k % den = 0 then k else decimalPlaces den fuel (k+1)

def padZeros (width : Nat) (digits : String) : String :=
  String.ofList (List.replicate (width - digits.toList.length) '0') ++ digits

def floatRepr (q : Rat) : String :=
  let places := decimalPlaces q.den 400 0
  let scaled := q.num.natAbs * 10^places / q.den
  let sign := if q.num < 0 then "-" else ""
  let fraction := if places = 0 then "0" else padZeros places (toString (scaled % 10^places))
  sign ++ toString (scaled / 10^places) ++ "." ++ fraction

def escapeChar (quote : Char) (c : Char) : List Char :=
  if c == quote || c == '\\' then ['\\',c]
  else if c == '\n' then ['\\','n']
  else if c == '\r' then ['\\','r']
  else if c == '\t' then ['\\','t']
  else [c]

def strRepr (s : String) : String :=
  let quote := if s.toList.contains '\'' && !s.toList.contains '"' then '"' else '\''
  String.ofList (quote::(s.toList.flatMap (escapeChar quote) ++ [quote]))

mutual
def pyRepr : Value → String
  | .null => "None"
  | .bool b => if b then "True" else "False"
  | .int n => toString n
  | .float q => floatRepr q
  | .str s => strRepr s
  | .list items => "[" ++ Text.join ", " (reprItems items) ++ "]"
  | .dict fields => "\x7b" ++ Text.join ", " (reprFields fields) ++ "\x7d"

def reprItems : List Value → List String
  | [] => []
  | v::vs => pyRepr v::reprItems vs

def reprFields : List (String × Value) → List String
  | [] => []
  | (k,v)::kvs => (strRepr k ++ ": " ++ pyRepr v)::reprFields kvs
end

/-- The text `str(value)`. -/
def pyStr : Value → String
  | .str s => s
  | v => pyRepr v

@[simp] theorem pyStr_str (s : String) : pyStr (.str s) = s := rfl

mutual
/-- Whether a text is the `str` of the value or of a value inside it. -/
def occurs (s : String) : Value → Bool
  | .list items => pyStr (.list items) == s || occursList s items
  | .dict fields => pyStr (.dict fields) == s || occursFields s fields
  | v => pyStr v == s

def occursList (s : String) : List Value → Bool
  | [] => false
  | v::vs => occurs s v || occursList s vs

def occursFields (s : String) : List (String × Value) → Bool
  | [] => false
  | (_,v)::kvs => occurs s v || occursFields s kvs
end

end Value

/-- `row.get(name)`: a missing field reads as `None`. -/
def Fields.read (row : Fields) (name : String) : Value := (Dict.get? row name).getD .null

@[simp] theorem Fields.read_set_self (row : Fields) (name : String) (v : Value) :
    Fields.read (Dict.set row name v) name = v := by simp [Fields.read]

theorem Fields.read_set_ne (row : Fields) {x y : String} (v : Value) (h : x ≠ y) :
    Fields.read (Dict.set row x v) y = Fields.read row y := by
  simp [Fields.read, Dict.get?_set_ne row v h]

example : Value.pyStr (.list [.int 1, .str "a", .float 2.5]) = "[1, 'a', 2.5]" := by decide +kernel

end NexusEtl
