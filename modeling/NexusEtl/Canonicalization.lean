import NexusEtl.Library.Words
import NexusEtl.Diagnostics

/-!
# Canonicalization of path segments

A canonicalization spec is a list of operations. Three of them work on each
segment alone; `compact` drops the blank segments of a path. Lower-casing and
regular expressions come from the standard library and are parameters.
-/

set_option autoImplicit false

namespace NexusEtl
open NexusEtl.Library

namespace Text

def stripBy (p : Char → Bool) (s : String) : String :=
  String.ofList ((s.toList.dropWhile p).reverse.dropWhile p).reverse

theorem strip_eq_stripBy (s : String) : strip s = stripBy isSpace s := rfl

theorem stripBy_eq_empty_iff {p : Char → Bool} {s : String} :
    stripBy p s = "" ↔ ∀ c ∈ s.toList, p c = true := by
  have hlist : stripBy p s = "" ↔ (s.toList.dropWhile p).rdropWhile p = [] := by
    rw [← String.toList_inj]
    simp [stripBy, List.rdropWhile]
  rw [hlist, List.rdropWhile_eq_nil_iff]
  constructor
  · intro h
    have hnil : s.toList.dropWhile p = [] := by
      by_contra hne
      have hhead := List.head_dropWhile_not p hne
      rw [h _ (List.head_mem hne)] at hhead
      cases hhead
    exact List.dropWhile_eq_nil_iff.mp hnil
  · intro h c hc
    exact h c (List.dropWhile_subset p hc)

theorem words_eq (s : String) : words s = (wordsBy isSpace s.toList).map String.ofList := rfl

theorem words_stripBy {p : Char → Bool} (h : ∀ c, p c = true → isSpace c = true) (s : String) :
    words (stripBy p s) = words s := by
  have hlist : (stripBy p s).toList = (s.toList.dropWhile p).rdropWhile p := by
    simp [stripBy, List.rdropWhile]
  rw [words_eq, words_eq, hlist, wordsBy_strip h]

/-- A text of words with one space between each two. -/
def SingleSpaced (t : String) : Prop :=
  ∃ ws : List (List Char), (∀ w ∈ ws, IsWord isSpace w) ∧ t = join " " (ws.map String.ofList)

theorem join_space (ws : List (List Char)) :
    (join " " (ws.map String.ofList)).toList = [' '].intercalate ws := by
  simp [join, String.toList_intercalate, List.map_map, Function.comp_def]

/-- Splitting a text into words and joining them again gives the text exactly when it has no
white space but single spaces between its words. -/
theorem join_words_eq_iff {t : String} : join " " (words t) = t ↔ SingleSpaced t := by
  constructor
  · intro h
    exact ⟨wordsBy isSpace t.toList,fun w hw => isWord_of_mem hw,h.symm⟩
  · rintro ⟨ws,hws,rfl⟩
    rw [words_eq, join_space, wordsBy_intercalate (by decide) hws]

end Text

/-- The functions of the standard library that canonicalization calls: `str.lower`, and
`re.sub` by its pattern, its replacement and the text. -/
structure TextLibrary where
  lower : String → String
  sub : String → String → String → Except PyException String

inductive CanonicalizeOpSpec
  | trim | lower | compact
  | regexReplace (pattern repl : String) (nonEmpty : pattern ≠ "")

inductive CompiledCanonicalizeOp
  | trim | lower | compact
  | regexReplace (pattern repl : String)
  deriving DecidableEq, Repr

def compileCanonicalizeOp : CanonicalizeOpSpec → CompiledCanonicalizeOp
  | .trim => .trim
  | .lower => .lower
  | .compact => .compact
  | .regexReplace pattern repl _ => .regexReplace pattern repl

/-- `CanonicalizationDsl.compile`; both forms of the plan hold the same operations. -/
def compileCanonicalization (spec : List CanonicalizeOpSpec) : List CompiledCanonicalizeOp :=
  spec.map compileCanonicalizeOp

def opTrim (s : String) : Option String :=
  let normalized := Text.join " " (Text.words s)
  if normalized = "" then none else some normalized

def isBlankScalar (s : String) : Bool := Text.strip s == ""

def opCompact (segments : List String) : List String := segments.filter fun s => !isBlankScalar s

namespace TextLibrary

variable (lib : TextLibrary)

def applyOp (current : List String) : CompiledCanonicalizeOp → Except PyException (List String)
  | .trim => .ok (current.map fun s => (opTrim s).getD "")
  | .lower => .ok (current.map lib.lower)
  | .regexReplace pattern repl => current.mapM (lib.sub pattern repl)
  | .compact => .ok (opCompact current)

/-- `apply_compiled_canonicalizer_ops` on texts. -/
def canonicalizeSegments (ops : List CompiledCanonicalizeOp) (segments : List String) :
    Except PyException (List String) :=
  ops.foldlM lib.applyOp segments

def canonicalizeScalar (ops : List CompiledCanonicalizeOp) (value : String) :
    Except PyException String :=
  (lib.canonicalizeSegments ops [value]).map fun segments => segments.headD ""

end TextLibrary

@[simp] theorem opTrim_getD (s : String) : (opTrim s).getD "" = Text.join " " (Text.words s) := by
  unfold opTrim
  dsimp only
  split
  · rename_i h
    exact h.symm
  · rfl

end NexusEtl
