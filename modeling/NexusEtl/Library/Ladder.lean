import Mathlib.Data.List.Nodup

/-!
# Ladders

Candidates are put to tests from the strongest to the weakest, and the first
test that one of them passes decides. Which test that is depends on the set of
candidates alone, so it can be computed from any list of them.
-/

set_option autoImplicit false

namespace NexusEtl.Library

section Relation

variable {ρ α : Type} {agrees : ρ → α → Prop} {s : Set α} {ladder : List ρ} {r q : ρ}

/-- The first rung at which an element of the set agrees. -/
def FirstRung (agrees : ρ → α → Prop) (s : Set α) (ladder : List ρ) (r : ρ) : Prop :=
  ∃ above below, ladder = above ++ r::below ∧ (∃ a ∈ s, agrees r a) ∧
    ∀ q ∈ above, ∀ a ∈ s, ¬agrees q a

theorem FirstRung.exists_mem (h : FirstRung agrees s ladder r) : ∃ a ∈ s, agrees r a := by
  obtain ⟨_,_,_,ha,_⟩ := h
  exact ha

theorem FirstRung.congr {agrees' : ρ → α → Prop} {s' : Set α} (hs : ∀ a, a ∈ s ↔ a ∈ s')
    (hagrees : ∀ r, ∀ a ∈ s, agrees r a ↔ agrees' r a) (h : FirstRung agrees s ladder r) :
    FirstRung agrees' s' ladder r := by
  obtain ⟨above,below,heq,⟨a,ha,hagree⟩,hnone⟩ := h
  refine ⟨above,below,heq,⟨a,(hs a).mp ha,(hagrees r a ha).mp hagree⟩,fun q hq b hb hagree' => ?_⟩
  have hmem := (hs b).mpr hb
  exact hnone q hq b hmem ((hagrees q b hmem).mpr hagree')

theorem not_firstRung_nil : ¬FirstRung agrees s [] r := by
  rintro ⟨above,below,heq,_,_⟩
  cases above <;> cases heq

theorem firstRung_cons_iff : FirstRung agrees s (q::ladder) r ↔
    (r = q ∧ ∃ a ∈ s, agrees q a) ∨ ((∀ a ∈ s, ¬agrees q a) ∧ FirstRung agrees s ladder r) := by
  constructor
  · rintro ⟨above,below,heq,ha,hnone⟩
    cases above with
    | nil =>
      cases heq
      exact .inl ⟨rfl,ha⟩
    | cons p above =>
      cases heq
      exact .inr ⟨hnone q List.mem_cons_self,above,below,rfl,ha,
        fun p hp => hnone p (List.mem_cons_of_mem _ hp)⟩
  · rintro (⟨rfl,ha⟩ | ⟨hq,above,below,rfl,ha,hnone⟩)
    · exact ⟨[],ladder,rfl,ha,by simp⟩
    · refine ⟨q::above,below,rfl,ha,fun p hp => ?_⟩
      rcases List.mem_cons.mp hp with rfl | hp
      · exact hq
      · exact hnone p hp

/-- At most one rung is the first. -/
theorem FirstRung.unique {r' : ρ} (h : FirstRung agrees s ladder r)
    (h' : FirstRung agrees s ladder r') : r = r' := by
  induction ladder with
  | nil => exact absurd h not_firstRung_nil
  | cons q ladder ih =>
    rcases firstRung_cons_iff.mp h with ⟨rfl,a,ha,hagrees⟩ | ⟨hq,h⟩
    · rcases firstRung_cons_iff.mp h' with ⟨rfl,_⟩ | ⟨hq,_⟩
      · rfl
      · exact absurd hagrees (hq a ha)
    · rcases firstRung_cons_iff.mp h' with ⟨rfl,a,ha,hagrees⟩ | ⟨_,h'⟩
      · exact absurd hagrees (hq a ha)
      · exact ih h h'

end Relation

section Lists

variable {ρ α : Type} (agrees : ρ → α → Bool) (candidates : List α)

/-- The first rung at which a candidate agrees, with those that agree there. -/
def firstRung : List ρ → Option (ρ × List α)
  | [] => none
  | r::ladder =>
    match candidates.filter (agrees r) with
    | [] => firstRung ladder
    | matched => some (r,matched)

variable {agrees candidates}

theorem firstRung_none_iff {ladder : List ρ} : firstRung agrees candidates ladder = none ↔
    ∀ r, ¬FirstRung (fun r a => agrees r a = true) {a | a ∈ candidates} ladder r := by
  induction ladder with
  | nil => exact iff_of_true rfl fun r => not_firstRung_nil
  | cons q ladder ih =>
    unfold firstRung
    cases hmatched : candidates.filter (agrees q) with
    | nil =>
      have hq := List.filter_eq_nil_iff.mp hmatched
      show firstRung agrees candidates ladder = none ↔ _
      rw [ih]
      constructor
      · intro h r hr
        rcases firstRung_cons_iff.mp hr with ⟨_,a,ha,hagrees⟩ | ⟨_,hr⟩
        · exact hq a ha hagrees
        · exact h r hr
      · intro h r hr
        exact h r (firstRung_cons_iff.mpr (.inr ⟨hq,hr⟩))
    | cons a matched =>
      have ha : a ∈ candidates.filter (agrees q) := hmatched ▸ List.mem_cons_self
      apply iff_of_false (by simp)
      intro h
      exact h q (firstRung_cons_iff.mpr (.inl ⟨rfl,a,List.mem_filter.mp ha⟩))

theorem firstRung_some {ladder : List ρ} {r : ρ} {matched : List α}
    (h : firstRung agrees candidates ladder = some (r,matched)) :
    FirstRung (fun r a => agrees r a = true) {a | a ∈ candidates} ladder r ∧
      matched = candidates.filter (agrees r) := by
  induction ladder with
  | nil => cases h
  | cons q ladder ih =>
    unfold firstRung at h
    cases hmatched : candidates.filter (agrees q) with
    | nil =>
      rw [hmatched] at h
      obtain ⟨hfirst,heq⟩ := ih h
      exact ⟨firstRung_cons_iff.mpr (.inr ⟨List.filter_eq_nil_iff.mp hmatched,hfirst⟩),heq⟩
    | cons a rest =>
      rw [hmatched] at h
      cases h
      have ha : a ∈ candidates.filter (agrees r) := hmatched ▸ List.mem_cons_self
      exact ⟨firstRung_cons_iff.mpr (.inl ⟨rfl,a,List.mem_filter.mp ha⟩),hmatched.symm⟩

/-- The order of the candidates shows only in the order of those that agree. -/
theorem firstRung_perm {others : List α} (h : candidates.Perm others) (ladder : List ρ) :
    (firstRung agrees candidates ladder = none ∧ firstRung agrees others ladder = none) ∨
      ∃ r matched matched', firstRung agrees candidates ladder = some (r,matched) ∧
        firstRung agrees others ladder = some (r,matched') ∧ matched.Perm matched' := by
  induction ladder with
  | nil => exact .inl ⟨rfl,rfl⟩
  | cons r ladder ih =>
    have hfilter := h.filter (agrees r)
    unfold firstRung
    cases hmatched : candidates.filter (agrees r) with
    | nil =>
      rw [hmatched] at hfilter
      rw [List.nil_perm.mp hfilter]
      exact ih
    | cons a matched =>
      cases hmatched' : others.filter (agrees r) with
      | nil =>
        rw [hmatched, hmatched'] at hfilter
        cases List.perm_nil.mp hfilter
      | cons b matched' =>
        rw [hmatched, hmatched'] at hfilter
        exact .inr ⟨r,_,_,rfl,rfl,hfilter⟩

end Lists
end NexusEtl.Library
