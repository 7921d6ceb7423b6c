import NexusEtl.Text

/-!
# Texts that denote numbers

A text that `int` or `float` reads is framed by blanks and has none in between, so
to strip it first makes no difference. A text of digits is a number for `int`
exactly if all of them are decimal and there are not too many.
-/

set_option autoImplicit false

namespace NexusEtl.Text
open NexusEtl.Library

section Blanks

variable {α : Type} {p q : α → Bool}

theorem inRanges_disjoint {a b : List (Nat × Nat)} (h : ∀ r ∈ a, ∀ t ∈ b, r.2 < t.1 ∨ t.2 < r.1)
    {c : Char} (hc : inRanges a c = true) : inRanges b c = false := by
  obtain ⟨r,hr,hin⟩ := List.any_eq_true.mp hc
  refine List.any_eq_false.mpr fun t ht hin' => ?_
  simp only [Bool.and_eq_true, decide_eq_true_eq] at hin hin'
  rcases h r hr t ht with hlt | hlt
  · omega
  · omega

theorem dropWhile_of_imp (h : ∀ c, q c = true → p c = true) {l : List α}
    (hl : l.dropWhile p = l) : l.dropWhile q = l := by
  cases l with
  | nil => rfl
  | cons c cs =>
    have hkept : ¬p c = true := by
      intro hp
      rw [List.dropWhile_cons_of_pos hp] at hl
      have hlength := (List.dropWhile_suffix (l := cs) p).length_le
      simp only [hl, List.length_cons] at hlength
      omega
    exact List.dropWhile_cons_of_neg fun hq => hkept (h c hq)

theorem dropWhile_kept {l : List α} (b : List α) (hkept : ∀ c ∈ l, p c = false) (hne : l ≠ []) :
    (l ++ b).dropWhile p = l ++ b := by
  cases l with
  | nil => exact absurd rfl hne
  | cons c cs => exact List.dropWhile_cons_of_neg (by simp [hkept c List.mem_cons_self])

/-- Dropping at both ends leaves what stands between. -/
theorem dropWhile_framed {a l b : List α} (ha : ∀ c ∈ a, p c = true)
    (hb : ∀ c ∈ b, p c = true) (hkept : ∀ c ∈ l, p c = false) (hne : l ≠ []) :
    (((a ++ (l ++ b)).dropWhile p).reverse.dropWhile p).reverse = l := by
  rw [List.dropWhile_append_of_pos ha, dropWhile_kept b hkept hne, List.reverse_append,
    List.dropWhile_append_of_pos fun c hc => hb c (List.mem_reverse.mp hc)]
  have hrest := dropWhile_kept (l := l.reverse) [] (fun c hc => hkept c (List.mem_reverse.mp hc))
    (by simpa using hne)
  rw [List.append_nil] at hrest
  rw [hrest, List.reverse_reverse]

/-- A list stands between what is dropped at its ends. -/
theorem framed_dropWhile (p : α → Bool) (l : List α) :
    ∃ a b, (∀ c ∈ a, p c = true) ∧ (∀ c ∈ b, p c = true) ∧
      l = a ++ (((l.dropWhile p).reverse.dropWhile p).reverse ++ b) := by
  refine ⟨l.takeWhile p,((l.dropWhile p).reverse.takeWhile p).reverse,
    fun c hc => List.mem_takeWhile_imp hc,
    fun c hc => List.mem_takeWhile_imp (List.mem_reverse.mp hc),?_⟩
  rw [← List.reverse_append, List.takeWhile_append_dropWhile, List.reverse_reverse,
    List.takeWhile_append_dropWhile]

end Blanks

theorem isSpace_of_isNumberSpace (c : Char) (h : isNumberSpace c = true) : isSpace c = true := by
  unfold isNumberSpace at h
  exact (Bool.and_eq_true .. ▸ h).1

theorem stripNumber_strip (s : String) : stripNumber (strip s) = strip s := by
  have hstart := dropWhile_of_imp isSpace_of_isNumberSpace
    (prefix_dropWhile (p := isSpace) (a := s.toList)
      (b := ((s.toList.dropWhile isSpace).reverse.dropWhile isSpace).reverse)
      (List.reverse_suffix.mp (by simpa using List.dropWhile_suffix isSpace)))
  have hend := dropWhile_of_imp isSpace_of_isNumberSpace
    (List.dropWhile_idempotent isSpace (s.toList.dropWhile isSpace).reverse)
  simp [stripNumber, strip, hstart, hend]

/-- A text that is not blank inside is stripped alike. -/
theorem strip_of_kept {s : String} (hne : stripNumber s ≠ "")
    (hkept : ∀ c ∈ (stripNumber s).toList, isSpace c = false) : strip s = stripNumber s := by
  obtain ⟨a,b,ha,hb,hl⟩ := framed_dropWhile isNumberSpace s.toList
  unfold strip
  rw [hl]
  have hbody : (((s.toList.dropWhile isNumberSpace).reverse.dropWhile isNumberSpace).reverse) =
      (stripNumber s).toList := by simp [stripNumber]
  rw [hbody, dropWhile_framed (fun c hc => isSpace_of_isNumberSpace c (ha c hc))
    (fun c hc => isSpace_of_isNumberSpace c (hb c hc)) hkept (by simpa using hne)]
  simp

section Floats

/-- The characters of a decimal number. -/
def FloatChar (c : Char) : Prop :=
  isDecimalChar c = true ∨ c ∈ ['_','.','e','E','+','-']

theorem FloatChar.not_space {c : Char} (h : FloatChar c) : isSpace c = false := by
  rcases h with h | h
  · exact inRanges_disjoint (by decide) h
  · have hnone : ['_','.','e','E','+','-'].filter isSpace = [] := by decide
    simpa using List.filter_eq_nil_iff.mp hnone c h

theorem takeDigits_chars {started : Bool} {cs rest : List Char}
    (h : takeDigits started cs = some rest) (hrest : ∀ c ∈ rest, FloatChar c) :
    ∀ c ∈ cs, FloatChar c := by
  fun_induction takeDigits started cs with
  | case1 => simp
  | case2 => cases h
  | case3 started c cs hc ih => exact List.forall_mem_cons.mpr ⟨.inl hc,ih h⟩
  | case4 started c hc hsep d ds hd ih =>
    simp only [Bool.and_eq_true, beq_iff_eq] at hsep
    exact List.forall_mem_cons.mpr ⟨.inr (by simp [hsep.2]),List.forall_mem_cons.mpr
      ⟨.inl hd,ih h⟩⟩
  | case5 => cases h
  | case6 => cases h
  | case7 c cs hc hsep =>
    cases h
    exact hrest
  | case8 => cases h

theorem dropSign_chars {cs : List Char} (h : ∀ c ∈ dropSign cs, FloatChar c) :
    ∀ c ∈ cs, FloatChar c := by
  unfold dropSign at h
  split at h
  · exact List.forall_mem_cons.mpr ⟨.inr (by simp),h⟩
  · exact List.forall_mem_cons.mpr ⟨.inr (by simp),h⟩
  · exact h

theorem isExponent_chars {cs : List Char} (h : isExponent cs = true) : ∀ c ∈ cs, FloatChar c := by
  cases cs with
  | nil => simp
  | cons c cs =>
    simp only [isExponent, Bool.and_eq_true, Bool.or_eq_true, beq_iff_eq] at h
    have hdigits := takeDigits_chars h.2 (by simp)
    refine List.forall_mem_cons.mpr ⟨.inr ?_,dropSign_chars hdigits⟩
    rcases h.1 with rfl | rfl <;> simp

theorem isMantissa_chars {cs : List Char} (h : isMantissa cs = true) : ∀ c ∈ cs, FloatChar c := by
  unfold isMantissa at h
  split at h
  · rename_i rest
    split at h
    · rename_i tail hdigits
      exact List.forall_mem_cons.mpr ⟨.inr (by simp),takeDigits_chars hdigits (isExponent_chars h)⟩
    · cases h
  · split at h
    · rename_i rest hdigits
      refine takeDigits_chars hdigits (List.forall_mem_cons.mpr ⟨.inr (by simp),?_⟩)
      rcases Bool.or_eq_true .. ▸ h with h | h
      · exact isExponent_chars h
      · split at h
        · rename_i tail htail
          exact takeDigits_chars htail (isExponent_chars h)
        · cases h
    · rename_i tail _ hdigits
      exact takeDigits_chars hdigits (isExponent_chars h)
    · cases h

theorem toLower_of_isSpace {c : Char} (h : isSpace c = true) : c.toLower = c := by
  unfold Char.toLower
  rw [dif_neg]
  intro hupper
  have hrange : inRanges [(65,90)] c = true := by
    have hlow : 65 ≤ c.toNat := UInt32.le_iff_toNat_le.mp hupper.1
    have hhigh : c.toNat ≤ 90 := UInt32.le_iff_toNat_le.mp hupper.2
    simp [inRanges, hlow, hhigh]
  have hnone : isSpace c = false := inRanges_disjoint (by decide) hrange
  simp [hnone] at h

/-- A text that `float` reads has no blanks but those around its number. -/
theorem isFloatText_kept {s : String} (h : isFloatText s = true) :
    stripNumber s ≠ "" ∧ ∀ c ∈ (stripNumber s).toList, isSpace c = false := by
  have hword : ∀ w : String, w.toList.filter isSpace = [] →
      String.ofList ((dropSign (stripNumber s).toList).map Char.toLower) = w →
        ∀ c ∈ dropSign (stripNumber s).toList, isSpace c = false := by
    rintro _ hletters rfl c hc
    by_contra hspace
    rw [Bool.not_eq_false] at hspace
    refine List.filter_eq_nil_iff.mp hletters c.toLower (by simpa using ⟨c,hc,rfl⟩) ?_
    rw [toLower_of_isSpace hspace]
    exact hspace
  have hsign : (∀ c ∈ dropSign (stripNumber s).toList, isSpace c = false) →
      ∀ c ∈ (stripNumber s).toList, isSpace c = false := by
    intro hbody
    unfold dropSign at hbody
    split at hbody
    · rename_i cs hcs
      rw [hcs]
      exact List.forall_mem_cons.mpr ⟨by decide,hbody⟩
    · rename_i cs hcs
      rw [hcs]
      exact List.forall_mem_cons.mpr ⟨by decide,hbody⟩
    · exact hbody
  constructor
  · intro hempty
    rw [isFloatText, hempty] at h
    revert h
    decide
  · refine hsign ?_
    simp only [isFloatText, Bool.or_eq_true, beq_iff_eq] at h
    rcases h with ((h | h) | h) | h
    · exact hword _ (by decide) h
    · exact hword _ (by decide) h
    · exact hword _ (by decide) h
    · exact fun c hc => (isMantissa_chars h c hc).not_space

/-- A text that `float` reads is read alike when it was stripped before. -/
theorem isFloatText_strip {s : String} (h : isFloatText s = true) :
    isFloatText (strip s) = true := by
  obtain ⟨hne,hkept⟩ := isFloatText_kept h
  unfold isFloatText at h ⊢
  rw [stripNumber_strip, strip_of_kept hne hkept]
  exact h

end Floats

section Integers

theorem digitValue_isSome (c : Char) : (digitValue c).isSome = isDecimalChar c := by
  rw [digitValue, Option.isSome_map, List.isSome_find?]
  rfl

theorem readDigits_chars {started : Bool} {n m : Nat} {cs : List Char}
    (h : readDigits started n cs = some m) : ∀ c ∈ cs, isDecimalChar c = true ∨ c = '_' := by
  fun_induction readDigits started n cs with
  | case1 => simp
  | case2 => cases h
  | case3 started n c cs d hd ih =>
    refine List.forall_mem_cons.mpr ⟨.inl ?_,ih h⟩
    rw [← digitValue_isSome, hd, Option.isSome_some]
  | case4 started n c cs hd hsep ih =>
    simp only [Bool.and_eq_true, beq_iff_eq] at hsep
    exact List.forall_mem_cons.mpr ⟨.inr hsep.2,ih h⟩
  | case5 => cases h

theorem readDigits_of_decimal {started : Bool} {n : Nat} {cs : List Char}
    (h : ∀ c ∈ cs, isDecimalChar c = true) (hne : started = true ∨ cs ≠ []) :
    ∃ m, readDigits started n cs = some m := by
  induction cs generalizing started n with
  | nil =>
    obtain rfl := hne.resolve_right (not_not.mpr rfl)
    exact ⟨n,rfl⟩
  | cons c cs ih =>
    obtain ⟨d,hd⟩ : ∃ d, digitValue c = some d := by
      rw [← Option.isSome_iff_exists, digitValue_isSome]
      exact h c List.mem_cons_self
    rw [readDigits, hd]
    exact ih (fun c hc => h c (List.mem_cons_of_mem _ hc)) (.inl rfl)

/-- A stripped text of digits is a number if they are decimal and at most 4300. -/
theorem parseInt_isSome_iff {s : String} (h : isDigit (strip s) = true) :
    (parseInt (strip s)).isSome = true ↔
      (∀ c ∈ (strip s).toList, isDecimalChar c = true) ∧ (strip s).length ≤ 4300 := by
  simp only [isDigit, Bool.and_eq_true, Bool.not_eq_true', List.isEmpty_eq_false_iff,
    List.all_eq_true] at h
  obtain ⟨hne,hdigits⟩ := h
  have hnot : ∀ d ∈ ['-','+','_'], d ∉ (strip s).toList := by
    intro d hd hmem
    have hnone : ['-','+','_'].filter isDigitChar = [] := by decide
    exact List.filter_eq_nil_iff.mp hnone d hd (hdigits d hmem)
  have hread : parseInt (strip s) =
      if 4300 < ((strip s).toList.filter isDecimalChar).length then none
      else (readDigits false 0 (strip s).toList).map Int.ofNat := by
    unfold parseInt
    rw [stripNumber_strip]
    dsimp only
    split
    · rfl
    · split
      · rename_i cs hcs
        exact absurd (by simp [hcs]) (hnot '-' (by simp))
      · rename_i cs hcs
        exact absurd (by simp [hcs]) (hnot '+' (by simp))
      · rfl
  rw [hread]
  constructor
  · intro hsome
    split at hsome
    · cases hsome
    · rename_i hcount
      obtain ⟨m,hm⟩ := Option.isSome_iff_exists.mp (Option.isSome_map ▸ hsome)
      have hdecimal : ∀ c ∈ (strip s).toList, isDecimalChar c = true := by
        intro c hc
        refine (readDigits_chars hm c hc).resolve_right fun hscore => ?_
        exact hnot '_' (by simp) (hscore ▸ hc)
      rw [List.filter_eq_self.mpr hdecimal, String.length_toList] at hcount
      exact ⟨hdecimal,not_lt.mp hcount⟩
  · rintro ⟨hdecimal,hcount⟩
    obtain ⟨m,hm⟩ : ∃ m, readDigits false 0 (strip s).toList = some m :=
      readDigits_of_decimal hdecimal (.inr hne)
    rw [List.filter_eq_self.mpr hdecimal, String.length_toList, if_neg (not_lt.mpr hcount), hm]
    rfl

end Integers

end NexusEtl.Text
