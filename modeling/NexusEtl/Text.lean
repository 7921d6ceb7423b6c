import NexusEtl.Library.Codes
import Mathlib.Data.List.DropRight

/-!
# Text operations

Stripping, splitting and the character classes of the built-in string type,
written over character lists so that they evaluate in the kernel. White space,
decimal digits and digits are the Unicode classes that `isspace`, `isdecimal`
and `isdigit` test.
-/

set_option autoImplicit false

namespace NexusEtl.Text
open NexusEtl.Library

def inRanges (ranges : List (Nat × Nat)) (c : Char) : Bool :=
  ranges.any fun r => r.1 ≤ c.toNat && c.toNat ≤ r.2

def spaceRanges : List (Nat × Nat) :=
  [(0x9,0xd), (0x1c,0x20), (0x85,0x85), (0xa0,0xa0), (0x1680,0x1680), (0x2000,0x200a),
   (0x2028,0x2029), (0x202f,0x202f), (0x205f,0x205f), (0x3000,0x3000)]

def decimalRanges : List (Nat × Nat) :=
  [(0x30,0x39), (0x660,0x669), (0x6f0,0x6f9), (0x7c0,0x7c9), (0x966,0x96f), (0x9e6,0x9ef),
   (0xa66,0xa6f), (0xae6,0xaef), (0xb66,0xb6f), (0xbe6,0xbef), (0xc66,0xc6f), (0xce6,0xcef),
   (0xd66,0xd6f), (0xde6,0xdef), (0xe50,0xe59), (0xed0,0xed9), (0xf20,0xf29), (0x1040,0x1049),
   (0x1090,0x1099), (0x17e0,0x17e9), (0x1810,0x1819), (0x1946,0x194f), (0x19d0,0x19d9),
   (0x1a80,0x1a89), (0x1a90,0x1a99), (0x1b50,0x1b59), (0x1bb0,0x1bb9), (0x1c40,0x1c49),
   (0x1c50,0x1c59), (0xa620,0xa629), (0xa8d0,0xa8d9), (0xa900,0xa909), (0xa9d0,0xa9d9),
   (0xa9f0,0xa9f9), (0xaa50,0xaa59), (0xabf0,0xabf9), (0xff10,0xff19), (0x104a0,0x104a9),
   (0x10d30,0x10d39), (0x11066,0x1106f), (0x110f0,0x110f9), (0x11136,0x1113f),
   (0x111d0,0x111d9), (0x112f0,0x112f9), (0x11450,0x11459), (0x114d0,0x114d9),
   (0x11650,0x11659), (0x116c0,0x116c9), (0x11730,0x11739), (0x118e0,0x118e9),
   (0x11950,0x11959), (0x11c50,0x11c59), (0x11d50,0x11d59), (0x11da0,0x11da9),
   (0x16a60,0x16a69), (0x16ac0,0x16ac9), (0x16b50,0x16b59), (0x1d7ce,0x1d7ff),
   (0x1e140,0x1e149), (0x1e2f0,0x1e2f9), (0x1e950,0x1e959), (0x1fbf0,0x1fbf9)]

def otherDigitRanges : List (Nat × Nat) :=
  [(0xb2,0xb3), (0xb9,0xb9), (0x1369,0x1371), (0x19da,0x19da), (0x2070,0x2070), (0x2074,0x2079),
   (0x2080,0x2089), (0x2460,0x2468), (0x2474,0x247c), (0x2488,0x2490), (0x24ea,0x24ea),
   (0x24f5,0x24fd), (0x24ff,0x24ff), (0x2776,0x277e), (0x2780,0x2788), (0x278a,0x2792),
   (0x10a40,0x10a43), (0x10e60,0x10e68), (0x11052,0x1105a), (0x1f100,0x1f10a)]

def isSpace (c : Char) : Bool := inRanges spaceRanges c

def isDecimalChar (c : Char) : Bool := inRanges decimalRanges c

def isDigitChar (c : Char) : Bool := inRanges decimalRanges c || inRanges otherDigitRanges c

def strip (s : String) : String :=
  String.ofList ((s.toList.dropWhile isSpace).reverse.dropWhile isSpace).reverse

theorem prefix_dropWhile {p : Char → Bool} {a b : List Char} (h : b <+: a.dropWhile p) :
    b.dropWhile p = b := by
  have hstart := List.dropWhile_eq_self_iff.mp (List.dropWhile_idempotent p a)
  cases b with
  | nil => rfl
  | cons c cs =>
    obtain ⟨rest,hrest⟩ := h
    simp only [← hrest] at hstart
    exact List.dropWhile_eq_self_iff.mpr fun _ => hstart (by simp)

theorem strip_strip (s : String) : strip (strip s) = strip s := by
  have hinner := prefix_dropWhile (p := isSpace) (a := s.toList)
    (b := ((s.toList.dropWhile isSpace).reverse.dropWhile isSpace).reverse)
    (List.reverse_suffix.mp (by simpa using List.dropWhile_suffix isSpace))
  simp [strip, hinner, List.dropWhile_idempotent isSpace]

/-- The blanks that `int` and `float` skip around a number; the ASCII separators are none. -/
def isNumberSpace (c : Char) : Bool := isSpace c && !inRanges [(0x1c,0x1f)] c

def stripNumber (s : String) : String :=
  String.ofList ((s.toList.dropWhile isNumberSpace).reverse.dropWhile isNumberSpace).reverse

/-- The words of a text, as `split()` returns them. -/
def words (s : String) : List String :=
  ((s.toList.splitBy fun a b => isSpace a == isSpace b).filter
    fun w => w.any fun c => !isSpace c).map String.ofList

def join (sep : String) (parts : List String) : String := sep.intercalate parts

def lower (s : String) : String := String.ofList (s.toList.map Char.toLower)

def isDigit (s : String) : Bool := !s.toList.isEmpty && s.toList.all isDigitChar

def hasPrefix (p s : String) : Bool := p.toList.isPrefixOf s.toList

def dropPrefix (p s : String) : String := String.ofList (s.toList.drop p.toList.length)

/-- Pieces of a text between occurrences of one separator character. -/
def splitOn (sep : Char) (s : String) : List String :=
  (s.toList.splitOn sep).map String.ofList

/-- Digits with single underscores between them; the rest of the text is returned. -/
def takeDigits : Bool → List Char → Option (List Char)
  | true, [] => some []
  | false, [] => none
  | started, c::cs =>
    if isDecimalChar c then takeDigits true cs
    else if started && c == '_' then
      match cs with
      | d::ds => if isDecimalChar d then takeDigits true ds else none
      | [] => none
    else if started then some (c::cs) else none

def dropSign : List Char → List Char
  | '+'::cs => cs
  | '-'::cs => cs
  | cs => cs

def isExponent : List Char → Bool
  | [] => true
  | c::cs => (c == 'e' || c == 'E') && takeDigits false (dropSign cs) == some []

def isMantissa (cs : List Char) : Bool :=
  match cs with
  | '.'::rest => match takeDigits false rest with
    | some tail => isExponent tail
    | none => false
  | _ => match takeDigits false cs with
    | some ('.'::rest) => isExponent rest || match takeDigits false rest with
      | some tail => isExponent tail
      | none => false
    | some tail => isExponent tail
    | none => false

/-- Whether `float(text)` accepts the text. -/
def isFloatText (s : String) : Bool :=
  let body := dropSign (stripNumber s).toList
  let word := String.ofList (body.map Char.toLower)
  word == "inf" || word == "infinity" || word == "nan" || isMantissa body

def digitValue (c : Char) : Option Nat :=
  (decimalRanges.find? fun r => r.1 ≤ c.toNat && c.toNat ≤ r.2).map fun r =>
    (c.toNat - r.1) % 10

/-- The number of a digit sequence; an underscore needs a digit on both sides. -/
def readDigits : Bool → Nat → List Char → Option Nat
  | started, n, [] => if started then some n else none
  | started, n, c::cs =>
    match digitValue c with
    | some d => readDigits true (10*n + d) cs
    | none => if started && c == '_' then readDigits false n cs else none

/-- The number `int(text)`, when the text is one of at most 4300 digits. -/
def parseInt (s : String) : Option Int :=
  let body := (stripNumber s).toList
  if 4300 < (body.filter isDecimalChar).length then none
  else match body with
    | '-'::cs => (readDigits false 0 cs).map fun n => -(n : Int)
    | '+'::cs => (readDigits false 0 cs).map Int.ofNat
    | cs => (readDigits false 0 cs).map Int.ofNat

example : strip " a b\t" = "a b" := by decide +kernel
example : words " a  b " = ["a", "b"] := by decide +kernel
example : isFloatText " -1_0.5e+3 " = true := by decide +kernel
example : parseInt " -1_07 " = some (-107) := by decide +kernel

/-- The two-letter escapes of a JSON text, by code. -/
def jsonEscapes : List (Nat × Char) :=
  [(34,Char.ofNat 34), (92,Char.ofNat 92), (10,'n'), (13,'r'), (9,'t'), (8,'b'), (12,'f')]

def hexDigit (n : Nat) : Char := Char.ofNat (if n < 10 then 48 + n else 87 + n)

def jsonEscape (c : Char) : List Char :=
  match jsonEscapes.find? fun e => e.1 == c.toNat with
  | some e => [Char.ofNat 92,e.2]
  | none =>
    if c.toNat < 32 then
      [Char.ofNat 92,'u','0','0',hexDigit (c.toNat / 16),hexDigit (c.toNat % 16)]
    else [c]

/-- A text as `json.dumps(text, ensure_ascii=False)` writes it. -/
def jsonString (s : String) : String :=
  String.ofList (Char.ofNat 34::(s.toList.flatMap jsonEscape ++ [Char.ofNat 34]))

theorem jsonEscape_cases (c : Char) :
    (∃ e ∈ jsonEscapes, e.1 = c.toNat ∧ jsonEscape c = [Char.ofNat 92,e.2]) ∨
      (c.toNat < 32 ∧ jsonEscape c =
        [Char.ofNat 92,'u','0','0',hexDigit (c.toNat / 16),hexDigit (c.toNat % 16)]) ∨
      (c ≠ Char.ofNat 92 ∧ jsonEscape c = [c]) := by
  unfold jsonEscape
  cases hf : jsonEscapes.find? fun e => e.1 == c.toNat with
  | some e =>
    have hcode := List.find?_some hf
    exact .inl ⟨e,List.mem_of_find?_eq_some hf,by simpa using hcode,rfl⟩
  | none =>
    by_cases hc : c.toNat < 32
    · exact .inr (.inl ⟨hc,by simp [hc]⟩)
    · refine .inr (.inr ⟨?_,by simp [hc]⟩)
      rintro rfl
      exact absurd hf (by decide)

/-- No escape is the beginning of another. -/
theorem jsonEscape_selfDelimiting : SelfDelimiting jsonEscape := by
  intro c d rest rest' h
  have hshort : ∀ e ∈ jsonEscapes, ∀ f ∈ jsonEscapes, e.2 = f.2 → e.1 = f.1 := by decide
  have hlong : ∀ e ∈ jsonEscapes, e.2 ≠ 'u' := by decide
  have hhex : ∀ m < 32, ∀ n < 32, hexDigit (m / 16) = hexDigit (n / 16) →
      hexDigit (m % 16) = hexDigit (n % 16) → m = n := by decide
  have hcode : c.toNat = d.toNat → c = d := fun h => Char.ext (UInt32.toNat_inj.mp h)
  rcases jsonEscape_cases c with ⟨e,he,hec,hc⟩ | ⟨hlt,hc⟩ | ⟨hne,hc⟩ <;>
    rcases jsonEscape_cases d with ⟨f,hf,hfd,hd⟩ | ⟨hlt',hd⟩ | ⟨hne',hd⟩ <;>
    rw [hc, hd] at h <;>
    simp only [List.cons_append, List.nil_append, List.cons.injEq, true_and] at h
  · exact ⟨hcode (by rw [← hec, ← hfd, hshort e he f hf h.1]),h.2⟩
  · exact absurd h.1 (hlong e he)
  · exact absurd h.1.symm hne'
  · exact absurd h.1.symm (hlong f hf)
  · exact ⟨hcode (hhex _ hlt _ hlt' h.1 h.2.1),h.2.2⟩
  · exact absurd h.1.symm hne'
  · exact absurd h.1 hne
  · exact absurd h.1 hne
  · exact h

theorem jsonString_selfDelimiting : SelfDelimiting fun s => (jsonString s).toList := by
  have hstart : StartsOtherThan jsonEscape (Char.ofNat 34) := by
    intro c
    rcases jsonEscape_cases c with ⟨e,_,_,hc⟩ | ⟨_,hc⟩ | ⟨_,hc⟩
    · exact ⟨_,_,hc,by decide⟩
    · exact ⟨_,_,hc,by decide⟩
    · refine ⟨_,_,hc,?_⟩
      rintro rfl
      exact absurd hc (by decide)
  intro s t r r' h
  simp only [jsonString, String.toList_ofList] at h
  obtain ⟨heq,hrest⟩ := (jsonEscape_selfDelimiting.terminated hstart).cons (Char.ofNat 34)
    s.toList t.toList r r' h
  exact ⟨String.toList_injective heq,hrest⟩

theorem jsonString_injective : Function.Injective jsonString := fun _ _ h =>
  jsonString_selfDelimiting.injective (congrArg String.toList h)

end NexusEtl.Text
