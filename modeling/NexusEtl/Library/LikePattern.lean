import Mathlib.Data.List.Infix
import Mathlib.Tactic.Common

/-!
# Patterns of the LIKE operator

A percent sign stands for any text, an underscore for any character, and ASCII
letters match in both cases. Of interest is which texts a pattern with an open
end can match when only the beginning of the text is given.
-/

set_option autoImplicit false

namespace NexusEtl.Library

def likeChar (p c : Char) : Bool := p == '_' || p.toLower == c.toLower

/-- `text LIKE pattern`, without an ESCAPE character. -/
def like : List Char → List Char → Bool
  | [], text => text.isEmpty
  | p::pattern, text =>
    if p = '%' then text.tails.any (like pattern)
    else match text with
      | [] => false
      | c::text => likeChar p c && like pattern text

/-- Can the pattern, continued by a percent sign, match a text that begins so? -/
def overlaps : List Char → List Char → Bool
  | [], _ => true
  | p::pattern, start =>
    if p = '%' then true
    else match start with
      | [] => true
      | c::start => likeChar p c && overlaps pattern start

theorem likeChar_self (c : Char) : likeChar c c = true := by simp [likeChar]

@[simp] theorem like_wild (pattern text : List Char) :
    like ('%'::pattern) text = text.tails.any (like pattern) := by
  cases text with
  | nil => rfl
  | cons c text => rfl

@[simp] theorem like_char {p : Char} (hp : p ≠ '%') (c : Char) (pattern text : List Char) :
    like (p::pattern) (c::text) = (likeChar p c && like pattern text) := if_neg hp

theorem like_percent {pattern text rest : List Char} (h : rest <:+ text)
    (hlike : like pattern rest = true) : like ('%'::pattern) text = true := by
  rw [like_wild, List.any_eq_true]
  exact ⟨rest,(List.mem_tails rest text).mpr h,hlike⟩

/-- A pattern matches itself as a text. -/
theorem like_self (pattern : List Char) : like pattern pattern = true := by
  induction pattern with
  | nil => rfl
  | cons p pattern ih =>
    by_cases hp : p = '%'
    · subst hp
      exact like_percent (List.suffix_cons '%' pattern) ih
    · simp [hp, likeChar_self, ih]

theorem like_open_self (pattern rest : List Char) :
    like (pattern ++ ['%']) (pattern ++ rest) = true := by
  induction pattern with
  | nil => exact like_percent List.nil_suffix rfl
  | cons p pattern ih =>
    by_cases hp : p = '%'
    · subst hp
      exact like_percent (List.suffix_cons '%' (pattern ++ rest)) ih
    · simp [hp, likeChar_self, ih]

theorem overlaps_iff (pattern start : List Char) :
    overlaps pattern start = true ↔
      ∃ rest, like (pattern ++ ['%']) (start ++ rest) = true := by
  induction pattern generalizing start with
  | nil => exact iff_of_true rfl ⟨[],like_percent List.nil_suffix rfl⟩
  | cons p pattern ih =>
    by_cases hp : p = '%'
    · subst hp
      refine iff_of_true (by simp [overlaps]) ⟨pattern ++ ['%'],?_⟩
      exact like_percent (List.suffix_append _ _) (like_self _)
    · cases start with
      | nil =>
        refine iff_of_true (by simp [overlaps, hp]) ⟨p::pattern ++ ['%'],?_⟩
        exact like_self _
      | cons c start =>
        simp only [overlaps, List.cons_append, like_char hp, if_neg hp, Bool.and_eq_true, ih]
        exact exists_and_left.symm

/-- Folding the case gives no punctuation below the letters. -/
theorem eq_of_toLower_eq {x c : Char} (hx : x.toNat < 'A'.toNat) (h : c.toLower = x) : c = x := by
  unfold Char.toLower at h
  split at h
  · rename_i hupper
    have hval : c.val.toNat + ('a'.val.toNat - 'A'.val.toNat) = x.val.toNat := by
      rw [← h]
      have hle : c.val.toNat ≤ 90 := hupper.2
      simp only [UInt32.toNat_add, UInt32.toNat_sub, Char.reduceVal, UInt32.reduceToNat]
      omega
    have hlow : x.val.toNat < 65 := hx
    have hge : 65 ≤ c.val.toNat := hupper.1
    omega
  · exact h

theorem toLower_low {x : Char} (hx : x.toNat < 'A'.toNat) : x.toLower = x := by
  unfold Char.toLower
  have hnot : ¬(x.val ≥ 'A'.val ∧ x.val ≤ 'Z'.val) := fun h => absurd hx (Nat.not_lt.mpr h.1)
  rw [dif_neg hnot]

/-- A character below the letters that is no wildcard stands in the text if it stands in the
pattern. -/
theorem mem_of_like {x : Char} (hpercent : x ≠ '%') (hunderscore : x ≠ '_')
    (hlow : x.toNat < 'A'.toNat) {pattern text : List Char}
    (h : like pattern text = true) (hx : x ∈ pattern) : x ∈ text := by
  induction pattern generalizing text with
  | nil => cases hx
  | cons p pattern ih =>
    by_cases hp : p = '%'
    · subst hp
      rw [like_wild, List.any_eq_true] at h
      obtain ⟨rest,hrest,hlike⟩ := h
      have hmem := ih hlike ((List.mem_cons.mp hx).resolve_left hpercent)
      exact ((List.mem_tails rest text).mp hrest).subset hmem
    · cases text with
      | nil => simp [like, hp] at h
      | cons c text =>
        simp only [like_char hp, Bool.and_eq_true] at h
        obtain ⟨hchar,hlike⟩ := h
        rcases List.mem_cons.mp hx with rfl | hx
        · simp only [likeChar, Bool.or_eq_true, beq_iff_eq, hunderscore, false_or] at hchar
          rw [toLower_low hlow] at hchar
          rw [eq_of_toLower_eq hlow hchar.symm]
          exact List.mem_cons_self
        · exact .tail _ (ih hlike hx)

example : like "user_groups.%".toList "User-Groups.schema_hash".toList = true := by decide +kernel

end NexusEtl.Library
