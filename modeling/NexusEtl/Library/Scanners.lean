import NexusEtl.Library.Codes
import Mathlib.Data.List.DropRight

/-!
# Scanners

A scanner takes the beginning of a stream and gives a value and the rest. It reads a word as
a value when it does so in front of every rest that may follow. What reads the words of a code
reads lists of them, up to a stop symbol or with separators and blanks between them.
-/

set_option autoImplicit false

namespace NexusEtl.Library

variable {σ α β : Type}

abbrev Scanner (σ α : Type) := List σ → Option (α × List σ)

/-- The scanner reads the word as the value in front of each rest that may follow. -/
def Scans (scan : Scanner σ α) (follows : List σ → Prop) (word : List σ) (a : α) : Prop :=
  ∀ rest, follows rest → scan (word ++ rest) = some (a,rest)

/-- Any rest may follow. -/
def Anything (_ : List σ) : Prop := True

theorem Scans.weaken {scan : Scanner σ α} {follows follows' : List σ → Prop} {word : List σ}
    {a : α} (h : Scans scan follows word a) (hf : ∀ rest, follows' rest → follows rest) :
    Scans scan follows' word a := fun rest hrest => h rest (hf rest hrest)

theorem dropWhile_word {p : σ → Bool} {w rest : List σ} (hw : ∀ c ∈ w, p c = true)
    (hrest : Ends p rest) : (w ++ rest).dropWhile p = rest := by
  rw [List.dropWhile_append_of_pos hw]
  cases rest with
  | nil => rfl
  | cons c rest => exact List.dropWhile_cons_of_neg (by simp [hrest c rest rfl])

theorem takeWhile_word {p : σ → Bool} {w rest : List σ} (hw : ∀ c ∈ w, p c = true)
    (hrest : Ends p rest) : (w ++ rest).takeWhile p = w := by
  rw [List.takeWhile_append_of_pos hw]
  cases rest with
  | nil => simp
  | cons c rest =>
    have hneg : ¬p c = true := by simp [hrest c rest rfl]
    simp [List.takeWhile_cons_of_neg hneg]

theorem Ends.cons {p : σ → Bool} {c : σ} (h : p c = false) (rest : List σ) :
    Ends p (c::rest) := by
  rintro d rest' heq
  rw [← (List.cons.inj heq).1]
  exact h

/-! ## Up to a stop symbol -/

def untilStop [DecidableEq σ] (stop : σ) (scan : Scanner σ α) : Nat → Scanner σ (List α)
  | 0, _ => none
  | _+1, [] => none
  | fuel+1, c::cs =>
    if c = stop then some ([],cs)
    else match scan (c::cs) with
      | none => none
      | some (a,rest) => (untilStop stop scan fuel rest).map fun out => (a::out.1,out.2)

theorem length_le_terminated {stop : σ} {enc : α → List σ} (hstop : StartsOtherThan enc stop)
    (l : List α) : l.length < (terminated stop enc l).length := by
  induction l with
  | nil => simp [terminated]
  | cons a l ih =>
    obtain ⟨c,w,hw,-⟩ := hstop a
    simp only [terminated, List.flatMap_cons, List.length_append, hw, List.length_cons] at ih ⊢
    omega

/-- What reads each word of a code reads a list of them up to the stop symbol. -/
theorem Scans.untilStop [DecidableEq σ] {stop : σ} {scan : Scanner σ α} {enc : α → List σ}
    (h : ∀ a, Scans scan Anything (enc a) a) (hstop : StartsOtherThan enc stop) {l : List α}
    {fuel : Nat} (hfuel : l.length < fuel) :
    Scans (untilStop stop scan fuel) Anything (terminated stop enc l) l := by
  intro rest _
  induction l generalizing fuel with
  | nil =>
    cases fuel with
    | zero => cases hfuel
    | succ fuel => simp [terminated, Library.untilStop]
  | cons a l ih =>
    cases fuel with
    | zero => cases hfuel
    | succ fuel =>
      obtain ⟨c,w,hw,hne⟩ := hstop a
      have hword : terminated stop enc (a::l) ++ rest = enc a ++ (terminated stop enc l ++ rest) := by
        simp [terminated]
      have hread := h a (terminated stop enc l ++ rest) trivial
      rw [hword]
      rw [hw, List.cons_append] at hread ⊢
      rw [Library.untilStop, if_neg hne, hread]
      simp only [ih (Nat.lt_of_succ_lt_succ hfuel), Option.map_some]

/-! ## Between separators -/

/-- The first value, and then values behind separators until the stop symbol. Blanks may
stand before and behind each separator and before the stop. -/
def listed [DecidableEq σ] (blank : σ → Bool) (sep stop : σ) (scan : Scanner σ α) : Nat → Scanner σ (List α)
  | 0, _ => none
  | fuel+1, cs =>
    match scan cs with
    | none => none
    | some (a,rest) =>
      match rest.dropWhile blank with
      | [] => none
      | c::rest =>
        if c = stop then some ([a],rest)
        else if c = sep then
          (listed blank sep stop scan fuel (rest.dropWhile blank)).map fun out => (a::out.1,out.2)
        else none

/-- The words behind the first one, with a layout behind each separator and before the stop. -/
def spaced (sep stop : σ) (gap close : List σ) (enc : α → List σ) : List α → List σ
  | [] => close ++ [stop]
  | a::l => sep::(gap ++ (enc a ++ spaced sep stop gap close enc l))

theorem length_le_spaced (sep stop : σ) (gap close : List σ) (enc : α → List σ) (l : List α) :
    l.length < (spaced sep stop gap close enc l).length := by
  induction l with
  | nil => simp [spaced]
  | cons a l ih =>
    simp only [spaced, List.length_cons, List.length_append]
    omega

section Listed

variable {blank inToken : σ → Bool} {sep stop : σ} {gap close : List σ} {scan : Scanner σ α}
  {enc : α → List σ}

/-- Behind a word comes a blank, a separator or the stop. -/
theorem ends_spaced (hblank : ∀ c, blank c = true → inToken c = false)
    (hsep : inToken sep = false) (hstop : inToken stop = false)
    (hclose : ∀ c ∈ close, blank c = true) (l : List α) (rest : List σ) :
    Ends inToken (spaced sep stop gap close enc l ++ rest) := by
  cases l with
  | nil =>
    cases close with
    | nil => exact Ends.cons hstop _
    | cons c close => exact Ends.cons (hblank c (hclose c List.mem_cons_self)) _
  | cons a l => exact Ends.cons hsep _

/-- What reads words that begin with no blank reads a list of them. -/
theorem Scans.listed [DecidableEq σ] (hblank : ∀ c, blank c = true → inToken c = false)
    (hsep : inToken sep = false) (hstop : inToken stop = false) (hne : sep ≠ stop)
    (hbsep : blank sep = false) (hbstop : blank stop = false)
    (hgap : ∀ c ∈ gap, blank c = true) (hclose : ∀ c ∈ close, blank c = true)
    {a : α} {l : List α} (h : ∀ b ∈ a::l, Scans scan (Ends inToken) (enc b) b)
    (hhead : ∀ b ∈ l, ∀ rest, Ends blank (enc b ++ rest)) {fuel : Nat} (hfuel : l.length < fuel) :
    Scans (listed blank sep stop scan fuel) Anything
      (enc a ++ spaced sep stop gap close enc l) (a::l) := by
  intro rest _
  induction l generalizing a fuel with
  | nil =>
    cases fuel with
    | zero => cases hfuel
    | succ fuel =>
      have hread := h a List.mem_cons_self (spaced sep stop gap close enc [] ++ rest)
        (ends_spaced hblank hsep hstop hclose [] rest)
      have hdrop : (spaced sep stop gap close enc [] ++ rest).dropWhile blank = stop::rest := by
        rw [spaced, List.append_assoc]
        exact dropWhile_word hclose (Ends.cons hbstop _)
      rw [List.append_assoc, Library.listed, hread]
      simp [hdrop]
  | cons b l ih =>
    cases fuel with
    | zero => cases hfuel
    | succ fuel =>
      have hread := h a List.mem_cons_self (spaced sep stop gap close enc (b::l) ++ rest)
        (ends_spaced hblank hsep hstop hclose (b::l) rest)
      have hdrop : (spaced sep stop gap close enc (b::l) ++ rest).dropWhile blank =
          sep::(gap ++ (enc b ++ (spaced sep stop gap close enc l ++ rest))) := by
        simp only [spaced, List.cons_append, List.append_assoc]
        exact List.dropWhile_cons_of_neg (by simp [hbsep])
      have hgapped : (gap ++ (enc b ++ (spaced sep stop gap close enc l ++ rest))).dropWhile blank =
          enc b ++ (spaced sep stop gap close enc l ++ rest) :=
        dropWhile_word hgap (hhead b List.mem_cons_self _)
      have htail := ih (a := b) (fun c hc => h c (List.mem_cons_of_mem a hc))
        (fun c hc => hhead c (List.mem_cons_of_mem b hc)) (Nat.lt_of_succ_lt_succ hfuel)
      rw [List.append_assoc] at htail
      rw [List.append_assoc, Library.listed, hread]
      simp only [hdrop, if_neg hne, if_true, hgapped, htail, Option.map_some]

end Listed

/-- What is listed has been scanned. -/
theorem mem_listed [DecidableEq σ] {blank : σ → Bool} {sep stop : σ} {scan : Scanner σ α}
    {fuel : Nat} {cs rest : List σ} {l : List α}
    (h : listed blank sep stop scan fuel cs = some (l,rest)) {a : α} (ha : a ∈ l) :
    ∃ cs rest, scan cs = some (a,rest) := by
  induction fuel generalizing cs l rest with
  | zero => cases h
  | succ fuel ih =>
    rw [Library.listed] at h
    split at h
    · cases h
    · rename_i b after hscan
      split at h
      · cases h
      · rename_i c tail hdrop
        split at h
        · obtain ⟨rfl,-⟩ := Prod.mk.inj (Option.some.inj h)
          rw [List.mem_singleton.mp ha]
          exact ⟨_,_,hscan⟩
        · split at h
          · obtain ⟨⟨out,last⟩,hout,heq⟩ := Option.map_eq_some_iff.mp h
            obtain ⟨rfl,-⟩ := Prod.mk.inj heq
            rcases List.mem_cons.mp ha with rfl | ha
            · exact ⟨_,_,hscan⟩
            · exact ih hout ha
          · cases h

end NexusEtl.Library
