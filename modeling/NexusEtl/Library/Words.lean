import Mathlib.Data.List.SplitBy
import Mathlib.Data.List.DropRight

/-!
# Words between separators

The words of a list are its longest runs without a separator. Separators at the
ends, and how many of them stand between two words, do not matter; a list of
words joined by one separator each has exactly these words.
-/

set_option autoImplicit false

namespace NexusEtl.Library

variable {α : Type} (sep : α → Bool)

def wordsBy (l : List α) : List (List α) :=
  (l.splitBy fun a b => sep a == sep b).filter fun w => w.any fun c => !sep c

variable {sep}

theorem wordsBy_append {l m : List α} (h : ∀ x ∈ l.getLast?, ∀ y ∈ m.head?, sep x ≠ sep y) :
    wordsBy sep (l ++ m) = wordsBy sep l ++ wordsBy sep m := by
  have hsplit : (l ++ m).splitBy (fun a b => sep a == sep b) =
      l.splitBy (fun a b => sep a == sep b) ++ m.splitBy (fun a b => sep a == sep b) := by
    apply List.splitBy_append
    intro x hx y hy
    simpa using h x hx y hy
  unfold wordsBy
  rw [hsplit, List.filter_append]

theorem wordsBy_separators {l : List α} (h : ∀ c ∈ l, sep c = true) : wordsBy sep l = [] := by
  apply List.filter_eq_nil_iff.mpr
  intro w hw
  have hmem : ∀ c ∈ w, c ∈ l := by
    intro c hc
    rw [← List.flatten_splitBy (fun a b => sep a == sep b) l]
    exact List.mem_flatten.mpr ⟨w,hw,hc⟩
  simp only [List.any_eq_true, not_exists, not_and, Bool.not_eq_true, Bool.not_eq_false']
  intro c hc
  exact h c (hmem c hc)

theorem wordsBy_word {l : List α} (hne : l ≠ []) (h : ∀ c ∈ l, sep c = false) :
    wordsBy sep l = [l] := by
  have hchain : l.IsChain fun a b => (sep a == sep b) = true := by
    apply List.Pairwise.isChain
    apply List.pairwise_of_forall_mem_list
    intro a ha b hb
    simp [h a ha, h b hb]
  have hany : (l.any fun c => !sep c) = true := by
    obtain ⟨c,hc⟩ := List.exists_mem_of_ne_nil l hne
    exact List.any_eq_true.mpr ⟨c,hc,by simp [h c hc]⟩
  unfold wordsBy
  rw [List.splitBy_of_isChain hne hchain]
  simp [hany]

theorem wordsBy_dropWhile (l : List α) : wordsBy sep (l.dropWhile sep) = wordsBy sep l := by
  have htake : ∀ c ∈ l.takeWhile sep, sep c = true := fun c hc => List.mem_takeWhile_imp hc
  have hsplit : wordsBy sep (l.takeWhile sep ++ l.dropWhile sep) =
      wordsBy sep (l.takeWhile sep) ++ wordsBy sep (l.dropWhile sep) := by
    apply wordsBy_append
    intro x hx y hy
    rw [htake x (List.mem_of_getLast? hx)]
    have hhead := List.head?_dropWhile_not sep l
    rw [Option.mem_def.mp hy] at hhead
    have hword : sep y = false := hhead
    simp [hword]
  rw [List.takeWhile_append_dropWhile, wordsBy_separators htake] at hsplit
  exact hsplit.symm

/-- Separators in front of a list do not change its words. -/
theorem wordsBy_separators_append {s : List α} (h : ∀ c ∈ s, sep c = true) (l : List α) :
    wordsBy sep (s ++ l) = wordsBy sep l := by
  rw [← wordsBy_dropWhile (s ++ l), ← wordsBy_dropWhile l, List.dropWhile_append_of_pos h]

theorem wordsBy_rdropWhile (l : List α) : wordsBy sep (l.rdropWhile sep) = wordsBy sep l := by
  have htake : ∀ c ∈ l.rtakeWhile sep, sep c = true := fun c hc => List.mem_rtakeWhile_imp hc
  have hsplit : wordsBy sep (l.rdropWhile sep ++ l.rtakeWhile sep) =
      wordsBy sep (l.rdropWhile sep) ++ wordsBy sep (l.rtakeWhile sep) := by
    apply wordsBy_append
    intro x hx y hy
    rw [htake y (List.mem_of_head? hy)]
    have hne : l.rdropWhile sep ≠ [] := by
      intro hnil
      rw [hnil] at hx
      cases hx
    have hlast := List.rdropWhile_last_not sep l hne
    rw [List.getLast?_eq_some_getLast hne] at hx
    cases hx
    exact hlast
  have hcut : l.rdropWhile sep ++ l.rtakeWhile sep = l := by
    unfold List.rdropWhile List.rtakeWhile
    rw [← List.reverse_append, List.takeWhile_append_dropWhile, List.reverse_reverse]
  rw [hcut, wordsBy_separators htake, List.append_nil] at hsplit
  exact hsplit.symm

/-- Separators behind a list do not change its words. -/
theorem wordsBy_append_separators {s : List α} (h : ∀ c ∈ s, sep c = true) (l : List α) :
    wordsBy sep (l ++ s) = wordsBy sep l := by
  have hdrop : (l ++ s).rdropWhile sep = l.rdropWhile sep := by
    unfold List.rdropWhile
    rw [List.reverse_append, List.dropWhile_append_of_pos fun c hc => h c (List.mem_reverse.mp hc)]
  rw [← wordsBy_rdropWhile (l ++ s), ← wordsBy_rdropWhile l, hdrop]

/-- Nor does stripping some of the separators from both ends. -/
theorem wordsBy_strip {p : α → Bool} (h : ∀ c, p c = true → sep c = true) (l : List α) :
    wordsBy sep ((l.dropWhile p).rdropWhile p) = wordsBy sep l := by
  have hfront : wordsBy sep (l.dropWhile p) = wordsBy sep l := by
    have htake : ∀ c ∈ l.takeWhile p, sep c = true :=
      fun c hc => h c (List.mem_takeWhile_imp hc)
    rw [← wordsBy_separators_append htake, List.takeWhile_append_dropWhile]
  have hback : ∀ m : List α, wordsBy sep (m.rdropWhile p) = wordsBy sep m := by
    intro m
    have htake : ∀ c ∈ m.rtakeWhile p, sep c = true :=
      fun c hc => h c (List.mem_rtakeWhile_imp hc)
    have hcut : m.rdropWhile p ++ m.rtakeWhile p = m := by
      unfold List.rdropWhile List.rtakeWhile
      rw [← List.reverse_append, List.takeWhile_append_dropWhile, List.reverse_reverse]
    rw [← wordsBy_append_separators htake, hcut]
  rw [hback, hfront]

def IsWord (sep : α → Bool) (w : List α) : Prop := w ≠ [] ∧ ∀ c ∈ w, sep c = false

theorem isWord_of_mem {l w : List α} (h : w ∈ wordsBy sep l) : IsWord sep w := by
  obtain ⟨hgroup,hany⟩ := List.mem_filter.mp h
  have hchain := List.isChain_of_mem_splitBy hgroup
  have hsame : w.Pairwise fun a b => sep a = sep b := by
    have htrans : w.IsChain fun a b => sep a = sep b :=
      hchain.imp fun _ _ hab => by simpa using hab
    have : IsTrans α fun a b => sep a = sep b := ⟨fun _ _ _ => Eq.trans⟩
    exact List.isChain_iff_pairwise.mp htrans
  obtain ⟨c,hc,hword⟩ := List.any_eq_true.mp hany
  refine ⟨List.ne_nil_of_mem hc,fun d hd => ?_⟩
  have heq : sep d = sep c := by
    have : Std.Symm fun a b => sep a = sep b := ⟨fun _ _ => Eq.symm⟩
    exact List.Pairwise.forall_of_forall (R := fun a b => sep a = sep b) (fun _ _ => rfl) hsame
      hd hc
  rw [heq]
  simpa using hword

/-- Words joined by a separator are the words of the list that they make. -/
theorem wordsBy_intercalate {c : α} (hc : sep c = true) {ws : List (List α)}
    (h : ∀ w ∈ ws, IsWord sep w) : wordsBy sep ([c].intercalate ws) = ws := by
  induction ws with
  | nil => rfl
  | cons w rest ih =>
    have hw := h w List.mem_cons_self
    have hrest := ih fun v hv => h v (List.mem_cons_of_mem _ hv)
    cases rest with
    | nil => simpa using wordsBy_word hw.1 hw.2
    | cons v rest =>
      have hcut : [c].intercalate (w::v::rest) = w ++ ([c] ++ [c].intercalate (v::rest)) := by
        simp [List.intercalate]
      have hborder : ∀ x ∈ w.getLast?, ∀ y ∈ ([c] ++ [c].intercalate (v::rest)).head?,
          sep x ≠ sep y := by
        intro x hx y hy
        cases hy
        rw [hw.2 x (List.mem_of_getLast? hx), hc]
        decide
      rw [hcut, wordsBy_append hborder, wordsBy_word hw.1 hw.2,
        wordsBy_separators_append (by simpa using hc), hrest]
      rfl

end NexusEtl.Library
