import NexusEtl.Library.Substitution
import NexusEtl.Value

/-!
# Redaction of log events

One policy masks the values of its keys in the structure of an event, by a walk over
mappings and lists, and in texts, by two patterns for each key. The patterns run one after
the other over the whole text, in the order in which the set of the keys is iterated.
-/

set_option autoImplicit false

namespace NexusEtl
open NexusEtl.Library

structure ObservabilityRedactionPolicy where
  enabled : Bool := true
  keys : List String
  deriving DecidableEq, Repr

/-- What the tables of the characters say: `casefold`, equality in `(?i)` and `\w`. -/
structure CharTables where
  casefold : String → String
  sameLetter : Char → Char → Bool
  isWord : Char → Bool

def redactionMark : List Char := ['*','*','*']

namespace TextPattern

def isSeparator (c : Char) : Bool := c == ':' || c == '='

/-- `[^"\n]` -/
def inQuotes (c : Char) : Bool := c != '"' && c != '\n'

/-- `[^\s,;]` -/
def inWord (c : Char) : Bool := !Text.isSpace c && c != ',' && c != ';'

/-- The key at the head of a text, as the text spells it. -/
def takeKey (sameLetter : Char → Char → Bool) :
    List Char → List Char → Option (List Char × List Char)
  | [], cs => some ([],cs)
  | k::key, c::cs =>
    if sameLetter k c then (takeKey sameLetter key cs).map fun r => (c::r.1,r.2) else none
  | _::_, [] => none

/-- `"?` -/
def takeQuote : List Char → List Char × List Char
  | '"'::cs => (['"'],cs)
  | cs => ([],cs)

/-- `\s*[:=]\s*` -/
def takeSeparator (cs : List Char) : Option (List Char × List Char) :=
  match cs.dropWhile Text.isSpace with
  | c::rest =>
    if isSeparator c then
      some (cs.takeWhile Text.isSpace ++ c :: rest.takeWhile Text.isSpace,
        rest.dropWhile Text.isSpace)
    else none
  | [] => none

/-- `"([^"\n]*)(")` -/
def takeQuoted : List Char → Option (List Char × List Char)
  | '"'::cs =>
    match cs.dropWhile inQuotes with
    | '"'::rest => some (cs.takeWhile inQuotes,rest)
    | _ => none
  | _ => none

/-- `\b` between two letters -/
def isBoundary (isWord : Char → Bool) (a b : Option Char) : Bool :=
  a.any isWord != b.any isWord

/-- The first pattern behind the quote that may stand before the key. -/
def quotedFrom (sameLetter : Char → Char → Bool) (key lead cs : List Char) :
    Option (Found Char) :=
  match takeKey sameLetter key cs with
  | none => none
  | some (spelled,cs) =>
    match takeSeparator (takeQuote cs).2 with
    | none => none
    | some (separator,rest) =>
      match takeQuoted rest with
      | none => none
      | some (secret,rest) =>
        some ⟨lead ++ (spelled ++ ((takeQuote cs).1 ++ (separator ++ ['"']))),secret,['"'],rest⟩

/-- `(?i)("?(?:key)"?\s*[:=]\s*")([^"\n]*)(")` -/
def quoted (tables : CharTables) (key : List Char) (_ : Option Char) (cs : List Char) :
    Option (Found Char) :=
  match cs with
  | '"'::tail =>
    match quotedFrom tables.sameLetter key ['"'] tail with
    | some found => some found
    | none => quotedFrom tables.sameLetter key [] ('"'::tail)
  | cs => quotedFrom tables.sameLetter key [] cs

/-- `(?i)\b(key)\b(\s*[:=]\s*)([^\s,;]+)`: where the key begins or ends with a quote,
`_replace_match` keeps the third group and drops the second. -/
def bare (tables : CharTables) (key : List Char) (prev : Option Char) (cs : List Char) :
    Option (Found Char) :=
  if isBoundary tables.isWord prev cs.head? then
    match takeKey tables.sameLetter key cs with
    | none => none
    | some (spelled,cs) =>
      if isBoundary tables.isWord (spelled.getLast?.or prev) cs.head? then
        match takeSeparator cs with
        | none => none
        | some (separator,cs) =>
          let secret := cs.takeWhile inWord
          let rest := cs.dropWhile inWord
          if secret = [] then none
          else if spelled.head? = some '"' ∨ spelled.getLast? = some '"' then
            some ⟨spelled,separator,secret,rest⟩
          else some ⟨spelled ++ separator,secret,[],rest⟩
      else none
  else none

end TextPattern

/-- The engine with its normalized keys in the order of their iteration. -/
structure LogRedactionEngine where
  policy : ObservabilityRedactionPolicy
  tables : CharTables
  normalizedKeys : List String
  normalized : ∀ key, key ∈ normalizedKeys ↔
    ∃ k ∈ policy.keys, Text.strip k ≠ "" ∧ tables.casefold k = key
  nodup : normalizedKeys.Nodup

namespace LogRedactionEngine

variable (engine : LogRedactionEngine)

/-- `_compile_text_patterns` -/
def patterns : List (Option Char → List Char → Option (Found Char)) :=
  engine.normalizedKeys.flatMap fun key =>
    [TextPattern.quoted engine.tables key.toList,TextPattern.bare engine.tables key.toList]

/-- `pattern.sub(self._replace_match, text)` -/
def substitute (pattern : Option Char → List Char → Option (Found Char)) (cs : List Char) :
    List Char :=
  Substitution.sub pattern redactionMark none 0 cs

def redactText (value : String) : String :=
  if !engine.policy.enabled || value = "" then value
  else String.ofList (engine.patterns.foldl (fun cs p => substitute p cs) value.toList)

/-- The key is one of the policy's, but for its case. -/
def isSensitive (key : String) : Bool := engine.normalizedKeys.contains (engine.tables.casefold key)

mutual
/-- `redact_value` without a key -/
def redactPlain : Value → Value
  | .str s => .str (engine.redactText s)
  | .list items => .list (redactItems items)
  | .dict fields => .dict (redactFields fields)
  | v => v

def redactItems : List Value → List Value
  | [] => []
  | v::vs => redactPlain v :: redactItems vs

def redactFields : List (String × Value) → List (String × Value)
  | [] => []
  | (key,v)::fields =>
    (key,if engine.isSensitive key then .str (String.ofList redactionMark) else redactPlain v) ::
      redactFields fields
end

/-- `redact_value` with a key -/
def redactValue (key : String) (v : Value) : Value :=
  if !engine.policy.enabled then v
  else if engine.isSensitive key then .str (String.ofList redactionMark)
  else engine.redactPlain v

def redactEventDict (event : Fields) : Fields := event.map fun f => (f.1,engine.redactValue f.1 f.2)

end LogRedactionEngine

end NexusEtl
