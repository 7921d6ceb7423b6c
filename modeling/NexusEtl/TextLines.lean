import NexusEtl.Text

/-!
# Lines of a text

`str.splitlines` ends a line at every Unicode line boundary, and at `\r\n` once. A text
file is read as UTF-8; the line ends that reading translates split the text alike.
-/

set_option autoImplicit false

namespace NexusEtl.Text

def lineEndRanges : List (Nat × Nat) :=
  [(0xa,0xd), (0x1c,0x1e), (0x85,0x85), (0x2028,0x2029)]

def isLineEnd (c : Char) : Bool := inRanges lineEndRanges c

/-- A character of the line that the rest begins with. -/
def onFirstLine (c : Char) : List (List Char) → List (List Char)
  | [] => [[c]]
  | line::lines => (c::line)::lines

def lineChars : List Char → List (List Char)
  | [] => []
  | '\r' :: '\n' :: cs => []::lineChars cs
  | c::cs => if isLineEnd c then []::lineChars cs else onFirstLine c (lineChars cs)

/-- `s.splitlines()` -/
def splitLines (s : String) : List String := (lineChars s.toList).map String.ofList

example : splitLines "a\r\nb\n\nc" = ["a","b","","c"] := by decide

def decodeUtf8 (bytes : List UInt8) : Option String := String.fromUTF8? ⟨bytes.toArray⟩

theorem lineChars_cons {c : Char} (h : isLineEnd c = false) (cs : List Char) :
    lineChars (c::cs) = onFirstLine c (lineChars cs) := by
  have hne : c ≠ '\r' := by
    rintro rfl
    exact absurd h (by decide)
  rw [lineChars.eq_def]
  split
  · contradiction
  · exact absurd (List.cons.inj ‹_›).1 hne
  · obtain ⟨rfl,rfl⟩ := List.cons.inj ‹c::cs = _›
    rw [if_neg (by simp [h])]

theorem lineChars_end {c : Char} {cs : List Char} (h : isLineEnd c = true)
    (hne : c = '\r' → cs.head? ≠ some '\n') : lineChars (c::cs) = [] :: lineChars cs := by
  rw [lineChars.eq_def]
  split
  · contradiction
  · rename_i rest heq
    obtain ⟨rfl,rfl⟩ := List.cons.inj heq
    exact absurd rfl (hne rfl)
  · rename_i d ds _ heq
    obtain ⟨rfl,rfl⟩ := List.cons.inj heq
    rw [if_pos h]

/-- A line without a line end, its line feed and the rest. -/
theorem lineChars_line {line : List Char} (h : ∀ c ∈ line, isLineEnd c = false)
    (rest : List Char) : lineChars (line ++ '\n'::rest) = line :: lineChars rest := by
  induction line with
  | nil => rfl
  | cons c line ih =>
    rw [List.cons_append, lineChars_cons (h c List.mem_cons_self),
      ih fun d hd => h d (List.mem_cons_of_mem _ hd)]
    rfl

/-- The text is empty or its last character ends a line. -/
def EndsLine (cs : List Char) : Prop := ∀ c ∈ cs.getLast?, isLineEnd c = true

theorem onFirstLine_append {c : Char} {a b : List (List Char)} (h : a ≠ []) :
    onFirstLine c (a ++ b) = onFirstLine c a ++ b := by
  cases a with
  | nil => contradiction
  | cons line lines => rfl

theorem lineChars_ne_nil {cs : List Char} (h : cs ≠ []) : lineChars cs ≠ [] := by
  fun_cases lineChars cs with
  | case1 => contradiction
  | case2 cs => exact List.cons_ne_nil _ _
  | case3 c cs _ => exact List.cons_ne_nil _ _
  | case4 c cs _ =>
    cases lineChars cs with
    | nil => exact List.cons_ne_nil _ _
    | cons line lines => exact List.cons_ne_nil _ _

/-- After a line end the lines of the rest follow, unless a line feed belongs to the end. -/
theorem lineChars_append {cs rest : List Char} (h : EndsLine cs)
    (hrest : rest.head? ≠ some '\n') :
    lineChars (cs ++ rest) = lineChars cs ++ lineChars rest := by
  induction cs using lineChars.induct with
  | case1 => rfl
  | case2 cs ih =>
    have htail : EndsLine cs := by
      intro c hc
      apply h c
      rw [List.getLast?_cons_cons, List.getLast?_cons, hc]
      rfl
    rw [List.cons_append, List.cons_append, lineChars, lineChars, ih htail, List.cons_append]
  | case3 c cs hne hend ih =>
    have hhead : c = '\r' → (cs ++ rest).head? ≠ some '\n' := by
      rintro rfl
      cases cs with
      | nil => exact hrest
      | cons d ds =>
        intro hd
        obtain rfl : d = '\n' := by simpa using hd
        exact hne ds rfl rfl
    have hhead' : c = '\r' → cs.head? ≠ some '\n' := by
      rintro rfl hd
      obtain ⟨ds,rfl⟩ := List.head?_eq_some_iff.mp hd
      exact hne ds rfl rfl
    have htail : EndsLine cs := by
      intro d hd
      apply h d
      rw [List.getLast?_cons, hd]
      rfl
    rw [List.cons_append, lineChars_end hend hhead, lineChars_end hend hhead', ih htail,
      List.cons_append]
  | case4 c cs hne hend ih =>
    have hnil : cs ≠ [] := by
      rintro rfl
      exact hend (h c rfl)
    have htail : EndsLine cs := by
      intro d hd
      apply h d
      rw [List.getLast?_cons, hd]
      rfl
    have hend' : isLineEnd c = false := by simpa using hend
    rw [List.cons_append, lineChars_cons hend', lineChars_cons hend', ih htail,
      onFirstLine_append (lineChars_ne_nil hnil)]

end NexusEtl.Text
