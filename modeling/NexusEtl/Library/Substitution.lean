import Mathlib.Data.List.Basic

/-!
# Replacing matches in a text

A matcher finds a match at the head of the rest of a text, given the letter before it. A
match is divided into what is kept before and after a hidden part, which a mark replaces.
Matches are sought from the left and do not overlap.
-/

set_option autoImplicit false

namespace NexusEtl.Library

structure Found (α : Type) where
  before : List α
  hidden : List α
  after : List α
  rest : List α
  deriving DecidableEq, Repr

namespace Found

variable {α : Type}

/-- The letters of the match. -/
def whole (f : Found α) : List α := f.before ++ (f.hidden ++ f.after)

end Found

namespace Substitution

variable {α : Type} (find : Option α → List α → Option (Found α)) (mark : List α)

/-- The letters still to be skipped belong to the last match. -/
def sub : Option α → Nat → List α → List α
  | _, _, [] => []
  | _, skip+1, c::cs => sub (some c) skip cs
  | prev, 0, c::cs =>
    match find prev (c::cs) with
    | some f => f.before ++ (mark ++ (f.after ++ sub (some c) (f.whole.length - 1) cs))
    | none => c :: sub (some c) 0 cs

/-- A match divides the text at whose head it is found. -/
def Splits : Prop :=
  ∀ prev cs f, find prev cs = some f → cs = f.whole ++ f.rest ∧ f.whole ≠ []

variable {find mark}

theorem exists_sub_skip (a rest : List α) :
    ∀ prev, ∃ prev', sub find mark prev a.length (a ++ rest) = sub find mark prev' 0 rest := by
  induction a with
  | nil => exact fun prev => ⟨prev,rfl⟩
  | cons c a ih => exact fun prev => ih (some c)

theorem sub_none {prev : Option α} {c : α} {cs : List α} (h : find prev (c::cs) = none) :
    sub find mark prev 0 (c::cs) = c :: sub find mark (some c) 0 cs := by
  rw [sub, h]

/-- A match is replaced and the search goes on behind it. -/
theorem exists_sub_found (hsplits : Splits find) {prev : Option α} {cs : List α} {f : Found α}
    (h : find prev cs = some f) :
    ∃ prev', sub find mark prev 0 cs =
      f.before ++ (mark ++ (f.after ++ sub find mark prev' 0 f.rest)) := by
  obtain ⟨hcs,hne⟩ := hsplits prev cs f h
  obtain ⟨c,tail,hwhole⟩ := List.exists_cons_of_ne_nil hne
  rw [hwhole, List.cons_append] at hcs
  rw [hcs] at h ⊢
  obtain ⟨prev',hskip⟩ := @exists_sub_skip α find mark tail f.rest (some c)
  refine ⟨prev',?_⟩
  rw [sub, h]
  dsimp only
  rw [hwhole, List.length_cons, Nat.add_sub_cancel, hskip]

end Substitution

end NexusEtl.Library
