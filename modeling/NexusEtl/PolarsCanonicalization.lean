import NexusEtl.Canonicalization
import NexusEtl.Library.Fallible

/-!
# Canonicalization in Polars

The Polars adapter runs the same compiled operations as list expressions. Its
`strip_chars` removes white space at the ends only and does not count the
information separators as white space, its regular expressions are of another
dialect, and a null cell stays null until the end.
-/

set_option autoImplicit false

namespace NexusEtl
open NexusEtl.Library

namespace Text

/-- The characters with the Unicode property White_Space. -/
def whiteSpaceRanges : List (Nat × Nat) :=
  [(0x9,0xd), (0x20,0x20), (0x85,0x85), (0xa0,0xa0), (0x1680,0x1680), (0x2000,0x200a),
   (0x2028,0x2029), (0x202f,0x202f), (0x205f,0x205f), (0x3000,0x3000)]

def isWhiteSpace (c : Char) : Bool := inRanges whiteSpaceRanges c

theorem isSpace_of_isWhiteSpace {c : Char} (h : isWhiteSpace c = true) : isSpace c = true := by
  simp only [isWhiteSpace, inRanges, whiteSpaceRanges, List.any_cons, List.any_nil, Bool.or_false,
    Bool.or_eq_true, Bool.and_eq_true, decide_eq_true_eq] at h
  simp only [isSpace, inRanges, spaceRanges, List.any_cons, List.any_nil, Bool.or_false,
    Bool.or_eq_true, Bool.and_eq_true, decide_eq_true_eq]
  omega

def stripChars (s : String) : String := stripBy isWhiteSpace s

theorem words_stripChars (s : String) : words (stripChars s) = words s :=
  words_stripBy (fun _ h => isSpace_of_isWhiteSpace h) s

theorem trim_eq_stripChars_iff {s : String} :
    join " " (words s) = stripChars s ↔ SingleSpaced (stripChars s) := by
  rw [← words_stripChars]
  exact join_words_eq_iff

end Text

/-- The string expressions of Polars that are not spelled out here. -/
structure PolarsEngine where
  toLowercase : String → String
  replaceAll : String → String → String → Except PyException String

namespace PolarsEngine

variable (eng : PolarsEngine)

/-- One step over the elements of a list; a null element stays null in a string expression. -/
def evalStep (current : List (Option String)) :
    CompiledCanonicalizeOp → Except PyException (List (Option String))
  | .trim => .ok (current.map (Option.map Text.stripChars))
  | .lower => .ok (current.map (Option.map eng.toLowercase))
  | .regexReplace pattern repl => current.mapM fun element => match element with
    | none => .ok none
    | some s => (eng.replaceAll pattern repl s).map some
  | .compact => .ok (current.filter fun element => element.any fun s => Text.stripChars s != "")

/-- `build_canonicalized_segments_expr` on the cells of one row. -/
def canonicalizedSegments (ops : List CompiledCanonicalizeOp) (cells : List (Option String)) :
    Except PyException (List (Option String)) :=
  ops.foldlM eng.evalStep cells

/-- `build_canonicalized_scalar_expr` on one cell. -/
def canonicalizedScalar (ops : List CompiledCanonicalizeOp) (cell : Option String) :
    Except PyException String :=
  (eng.canonicalizedSegments ops [cell]).map fun segments => (segments.head?.join).getD ""

end PolarsEngine

/-- A cell as the Python canonicalizer takes it: `str(segment)`. -/
def cellText (cell : Option String) : String := cell.getD "None"

section Agreement

variable (lib : TextLibrary) (eng : PolarsEngine)

/-- The texts that a step meets mean the same to both engines. -/
def StepAgrees (current : List String) : CompiledCanonicalizeOp → Prop
  | .trim => ∀ s ∈ current, Text.SingleSpaced (Text.stripChars s)
  | .lower => True
  | .regexReplace pattern repl => ∀ s ∈ current, ∀ t, lib.sub pattern repl s = .ok t →
      eng.replaceAll pattern repl s = .ok t
  | .compact => ∀ s ∈ current, (∀ c ∈ s.toList, Text.isSpace c = true) →
      ∀ c ∈ s.toList, Text.isWhiteSpace c = true

/-- Every step of the plan meets such texts. -/
def AgreesAlong : List CompiledCanonicalizeOp → List String → Prop
  | [], _ => True
  | op::ops, current => StepAgrees lib eng current op ∧
      ∀ next, lib.applyOp current op = .ok next → AgreesAlong ops next

variable {lib eng}

theorem isBlank_iff {s : String}
    (h : (∀ c ∈ s.toList, Text.isSpace c = true) → ∀ c ∈ s.toList, Text.isWhiteSpace c = true) :
    Text.strip s = "" ↔ Text.stripChars s = "" := by
  rw [Text.strip_eq_stripBy, Text.stripBy_eq_empty_iff, Text.stripChars, Text.stripBy_eq_empty_iff]
  exact ⟨h,fun hw c hc => Text.isSpace_of_isWhiteSpace (hw c hc)⟩

/-- Where the texts mean the same, a step leaves the same in both engines. -/
theorem evalStep_of_agrees (hlower : ∀ s, eng.toLowercase s = lib.lower s)
    {op : CompiledCanonicalizeOp} {current next : List String}
    (h : StepAgrees lib eng current op) (hnext : lib.applyOp current op = .ok next) :
    eng.evalStep (current.map some) op = .ok (next.map some) := by
  cases op with
  | trim =>
    cases hnext
    simp only [PolarsEngine.evalStep, List.map_map, Except.ok.injEq]
    apply List.map_congr_left
    intro s hs
    simp [Text.trim_eq_stripChars_iff.mpr (h s hs)]
  | lower =>
    cases hnext
    simp [PolarsEngine.evalStep, hlower, Function.comp_def]
  | regexReplace pattern repl =>
    apply mapM_ok_map _ hnext
    intro s hs t ht
    simp [h s hs t ht, Except.map]
  | compact =>
    cases hnext
    simp only [PolarsEngine.evalStep, List.filter_map, Except.ok.injEq, opCompact]
    apply congrArg (List.map some)
    apply List.filter_congr
    intro s hs
    have hblank := isBlank_iff (h s hs)
    rw [Bool.eq_iff_iff]
    simp [isBlankScalar, hblank]

theorem AgreesAlong.take {ops : List CompiledCanonicalizeOp} {current : List String}
    (h : AgreesAlong lib eng ops current) (n : Nat) : AgreesAlong lib eng (ops.take n) current := by
  induction n generalizing ops current with
  | zero => trivial
  | succ n ih =>
    cases ops with
    | nil => trivial
    | cons op ops => exact ⟨h.1,fun next hnext => ih (h.2 next hnext)⟩

theorem canonicalizedSegments_of_agrees (hlower : ∀ s, eng.toLowercase s = lib.lower s)
    {ops : List CompiledCanonicalizeOp} {segments final : List String}
    (h : AgreesAlong lib eng ops segments)
    (hfinal : lib.canonicalizeSegments ops segments = .ok final) :
    eng.canonicalizedSegments ops (segments.map some) = .ok (final.map some) := by
  induction ops generalizing segments with
  | nil =>
    cases hfinal
    rfl
  | cons op ops ih =>
    unfold TextLibrary.canonicalizeSegments at hfinal
    rw [List.foldlM_cons] at hfinal
    cases hstep : lib.applyOp segments op with
    | error e =>
      rw [hstep] at hfinal
      cases hfinal
    | ok next =>
      rw [hstep] at hfinal
      unfold PolarsEngine.canonicalizedSegments
      rw [List.foldlM_cons, evalStep_of_agrees hlower h.1 hstep]
      exact ih (h.2 next hstep) hfinal

def polarsScalarOf (segments : List (Option String)) : String := (segments.head?.join).getD ""

/-- What a step leaves of at most one segment shows whether the engines agree on it. -/
theorem agrees_of_evalStep {op : CompiledCanonicalizeOp} {current : List String}
    (hlen : current.length ≤ 1)
    (h : ∀ v, (lib.applyOp current op).map (fun l => l.headD "") = .ok v →
      (eng.evalStep (current.map some) op).map polarsScalarOf = .ok v) :
    StepAgrees lib eng current op := by
  cases current with
  | nil => cases op <;> simp [StepAgrees]
  | cons s rest =>
    have hrest : rest = [] := List.length_eq_zero_iff.mp (by simpa using hlen)
    subst hrest
    cases op with
    | trim =>
      have heq := h _ rfl
      simp only [PolarsEngine.evalStep, List.map_cons, List.map_nil, Except.map, polarsScalarOf,
        List.head?_cons, Option.map_some, Option.join_some, Option.getD_some, Except.ok.injEq,
        List.headD_cons, opTrim_getD] at heq
      intro t ht
      rw [List.mem_singleton.mp ht]
      exact Text.trim_eq_stripChars_iff.mp heq.symm
    | lower => trivial
    | regexReplace pattern repl =>
      intro t ht r hr
      rw [List.mem_singleton.mp ht] at hr ⊢
      have heq := h r (by simp [TextLibrary.applyOp, hr, Except.map, bind, Except.bind, pure,
        Except.pure])
      cases hreplace : eng.replaceAll pattern repl s with
      | error e =>
        simp [PolarsEngine.evalStep, hreplace, Except.map, bind, Except.bind] at heq
      | ok t =>
        simp only [PolarsEngine.evalStep, List.map_cons, List.map_nil, List.mapM_cons,
          List.mapM_nil, hreplace, Except.map, bind, Except.bind, pure, Except.pure,
          polarsScalarOf, List.head?_cons, Option.join_some, Option.getD_some,
          Except.ok.injEq] at heq
        rw [heq]
    | compact =>
      intro t ht hspace
      rw [List.mem_singleton.mp ht] at hspace ⊢
      have hblank : Text.strip s = "" := Text.stripBy_eq_empty_iff.mpr hspace
      by_contra hne
      have hfull : Text.stripChars s ≠ "" := fun he => hne (Text.stripBy_eq_empty_iff.mp he)
      have heq := h "" (by simp [TextLibrary.applyOp, opCompact, isBlankScalar, hblank, Except.map])
      simp only [PolarsEngine.evalStep, Except.map, polarsScalarOf, Except.ok.injEq, List.map_cons,
        List.map_nil] at heq
      have hs : s = "" := by simpa [hfull] using heq
      rw [hs] at hfull
      exact hfull rfl

theorem applyOp_length {op : CompiledCanonicalizeOp} {current next : List String}
    (h : lib.applyOp current op = .ok next) : next.length ≤ current.length := by
  cases op with
  | trim =>
    cases h
    simp
  | lower =>
    cases h
    simp
  | regexReplace pattern repl => exact Nat.le_of_eq (mapM_ok_iff.mp h).length_eq.symm
  | compact =>
    cases h
    exact List.length_filter_le _ _

/-- The engines agree on the cell under the plan and under every shorter one. -/
theorem agreesAlong_iff (hlower : ∀ s, eng.toLowercase s = lib.lower s)
    {ops : List CompiledCanonicalizeOp} {current : List String} (hlen : current.length ≤ 1) :
    (∀ n v, (lib.canonicalizeSegments (ops.take n) current).map (fun l => l.headD "") = .ok v →
      (eng.canonicalizedSegments (ops.take n) (current.map some)).map polarsScalarOf = .ok v) ↔
      AgreesAlong lib eng ops current := by
  induction ops generalizing current with
  | nil =>
    simp only [AgreesAlong, iff_true, List.take_nil]
    intro n v hv
    cases hv
    cases current <;> rfl
  | cons op ops ih =>
    constructor
    · intro h
      have hagrees : StepAgrees lib eng current op := by
        apply agrees_of_evalStep hlen
        intro v hv
        have hone := h 1 v
        simp only [TextLibrary.canonicalizeSegments, PolarsEngine.canonicalizedSegments,
          List.take_succ_cons, List.take_zero, List.foldlM_cons, List.foldlM_nil,
          bind_pure] at hone
        exact hone hv
      refine ⟨hagrees,fun next hnext => ?_⟩
      apply (ih ((applyOp_length hnext).trans hlen)).mp
      intro n v hv
      have hlater := h (n + 1) v
      simp only [TextLibrary.canonicalizeSegments, PolarsEngine.canonicalizedSegments,
        List.take_succ_cons, List.foldlM_cons, hnext, evalStep_of_agrees hlower hagrees hnext]
        at hlater
      exact hlater hv
    · intro h n v hv
      cases hfinal : lib.canonicalizeSegments ((op::ops).take n) current with
      | error e =>
        rw [hfinal] at hv
        cases hv
      | ok final =>
        rw [hfinal] at hv
        cases hv
        rw [canonicalizedSegments_of_agrees hlower (h.take n) hfinal]
        cases final <;> rfl

/-- For a plan and the plans it starts with, Polars gives the values of Python on a column
exactly when every cell is a text and no step meets a text that the engines treat apart. -/
theorem polars_matches_python_iff (lib : TextLibrary) (eng : PolarsEngine)
    (hlower : ∀ s, eng.toLowercase s = lib.lower s) (spec : List CanonicalizeOpSpec)
    (column : List (Option String)) :
    (∀ n, ∀ cell ∈ column, ∀ v,
      lib.canonicalizeScalar (compileCanonicalization (spec.take n)) (cellText cell) = .ok v →
        eng.canonicalizedScalar (compileCanonicalization (spec.take n)) cell = .ok v) ↔
      ∀ cell ∈ column, ∃ s, cell = some s ∧
        AgreesAlong lib eng (compileCanonicalization spec) [s] := by
  have htext : ∀ s, (∀ n v,
      lib.canonicalizeScalar (compileCanonicalization (spec.take n)) (cellText (some s)) = .ok v →
        eng.canonicalizedScalar (compileCanonicalization (spec.take n)) (some s) = .ok v) ↔
      AgreesAlong lib eng (compileCanonicalization spec) [s] := by
    intro s
    rw [← agreesAlong_iff hlower (show [s].length ≤ 1 from Nat.le_refl 1)]
    simp only [compileCanonicalization, List.map_take]
    rfl
  constructor
  · intro h cell hcell
    cases cell with
    | none =>
      have hempty := h 0 none hcell "None" rfl
      exact absurd (Except.ok.inj hempty) (by decide)
    | some s => exact ⟨s,rfl,(htext s).mp fun n v hv => h n (some s) hcell v hv⟩
  · intro h n cell hcell v hv
    obtain ⟨s,rfl,hagrees⟩ := h cell hcell
    exact (htext s).mpr hagrees n v hv

def asciiLibrary : TextLibrary := ⟨Text.lower,fun _ _ s => .ok s⟩

def asciiEngine : PolarsEngine := ⟨Text.lower,fun _ _ s => .ok s⟩

/-- `trim` keeps the two spaces of a name in Polars and joins them in Python; a null cell is
empty in Polars and the text None in Python. -/
theorem trim_disagrees :
    asciiLibrary.canonicalizeScalar (compileCanonicalization [.trim]) "North  Region" =
        .ok "North Region" ∧
      asciiEngine.canonicalizedScalar (compileCanonicalization [.trim]) (some "North  Region") =
        .ok "North  Region" ∧
      asciiLibrary.canonicalizeScalar (compileCanonicalization [.lower]) (cellText none) =
        .ok "none" ∧
      asciiEngine.canonicalizedScalar (compileCanonicalization [.lower]) none = .ok "" ∧
      ¬ ∀ (spec : List CanonicalizeOpSpec) (column : List (Option String)), ∀ cell ∈ column, ∀ v,
        asciiLibrary.canonicalizeScalar (compileCanonicalization spec) (cellText cell) = .ok v →
          asciiEngine.canonicalizedScalar (compileCanonicalization spec) cell = .ok v := by
  have hpython : asciiLibrary.canonicalizeScalar (compileCanonicalization [.trim])
      "North  Region" = .ok "North Region" := by decide
  have hpolars : asciiEngine.canonicalizedScalar (compileCanonicalization [.trim])
      (some "North  Region") = .ok "North  Region" := by decide
  refine ⟨hpython,hpolars,by decide,by decide,fun h => ?_⟩
  have hsame := h [.trim] [some "North  Region"] _ List.mem_cons_self _ hpython
  rw [hpolars] at hsame
  exact absurd (Except.ok.inj hsame) (by decide)

theorem polars_matches_python_iff_offices :
    (∀ n, ∀ cell ∈ [some " Head Office ", some "Ops"], ∀ v,
      asciiLibrary.canonicalizeScalar
          (compileCanonicalization ([.trim, .lower, .compact].take n)) (cellText cell) = .ok v →
        asciiEngine.canonicalizedScalar
          (compileCanonicalization ([.trim, .lower, .compact].take n)) cell = .ok v) ↔
      ∀ cell ∈ [some " Head Office ", some "Ops"], ∃ s, cell = some s ∧
        AgreesAlong asciiLibrary asciiEngine (compileCanonicalization [.trim, .lower, .compact])
          [s] :=
  polars_matches_python_iff asciiLibrary asciiEngine (fun _ => rfl) [.trim, .lower, .compact]
    [some " Head Office ", some "Ops"]

end Agreement

end NexusEtl
