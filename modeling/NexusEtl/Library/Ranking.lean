import Mathlib.Data.List.Sort
import Mathlib.Order.Defs.LinearOrder

/-!
# Rankings

A ranking lists the elements of a list with their scores, the highest first. The
scores it lists depend on the elements alone; so does its first element when
every other one scores less.
-/

set_option autoImplicit false

namespace NexusEtl.Library

variable {α κ : Type} [LinearOrder κ] {score : α → κ} {l l' : List α} {a b : α}

def ranking (score : α → κ) (l : List α) : List (α × κ) :=
  (l.map fun a => (a,score a)).insertionSort fun a b => b.2 ≤ a.2

theorem ranking_perm (score : α → κ) (l : List α) :
    (ranking score l).Perm (l.map fun a => (a,score a)) := List.perm_insertionSort _ _

theorem ranking_sorted (score : α → κ) (l : List α) :
    (ranking score l).Pairwise fun a b => b.2 ≤ a.2 := by
  have htotal : Std.Total fun a b : α × κ => b.2 ≤ a.2 := ⟨fun a b => le_total b.2 a.2⟩
  have htrans : IsTrans (α × κ) fun a b => b.2 ≤ a.2 := ⟨fun a b c hab hbc => hbc.trans hab⟩
  exact List.pairwise_insertionSort _ _

theorem ranking_score {p : α × κ} (h : p ∈ ranking score l) : p.2 = score p.1 := by
  obtain ⟨a,_,rfl⟩ := List.mem_map.mp ((ranking_perm score l).mem_iff.mp h)
  rfl

theorem ranking_elements (score : α → κ) (l : List α) :
    ((ranking score l).map Prod.fst).Perm l := by
  have h := (ranking_perm score l).map Prod.fst
  rwa [List.map_map, show (Prod.fst ∘ fun a => (a,score a)) = id from rfl, List.map_id] at h

theorem ranking_scores (score : α → κ) (l : List α) :
    ((ranking score l).map Prod.snd).Perm (l.map score) := by
  have h := (ranking_perm score l).map Prod.snd
  rwa [List.map_map] at h

/-- The scores come in one order only. -/
theorem ranking_scores_perm (h : l.Perm l') :
    (ranking score l).map Prod.snd = (ranking score l').map Prod.snd := by
  have hsorted : ∀ l : List α, ((ranking score l).map Prod.snd).Pairwise fun x y => y ≤ x :=
    fun l => List.pairwise_map.mpr (ranking_sorted score l)
  have hperm := (ranking_scores score l).trans ((h.map score).trans (ranking_scores score l').symm)
  exact hperm.eq_of_pairwise (fun x y _ _ hxy hyx => le_antisymm hyx hxy) (hsorted l) (hsorted l')

theorem ranking_cons {best : α × κ} {rest : List (α × κ)} (h : ranking score l = best::rest) :
    best.2 = score best.1 ∧ l.Perm (best.1::rest.map Prod.fst) ∧
      ∀ p ∈ rest, p.2 = score p.1 ∧ p.2 ≤ best.2 := by
  have hsorted := ranking_sorted score l
  have helements := ranking_elements score l
  rw [h] at hsorted helements
  refine ⟨ranking_score (h ▸ List.mem_cons_self),helements.symm,fun p hp => ?_⟩
  exact ⟨ranking_score (h ▸ List.mem_cons_of_mem _ hp),(List.pairwise_cons.mp hsorted).1 p hp⟩

/-- The element scores more than every other one of the list. -/
def Wins (score : α → κ) (l : List α) (a : α) : Prop :=
  ∃ others, l.Perm (a::others) ∧ ∀ b ∈ others, score b < score a

theorem Wins.perm (h : Wins score l a) (hperm : l'.Perm l) : Wins score l' a := by
  obtain ⟨others,hl,hless⟩ := h
  exact ⟨others,hperm.trans hl,hless⟩

theorem Wins.unique (h : Wins score l a) (h' : Wins score l b) : a = b := by
  obtain ⟨others,hl,hless⟩ := h
  obtain ⟨others',hl',hless'⟩ := h'
  have ha : a ∈ b::others' := (hl.symm.trans hl').mem_iff.mp List.mem_cons_self
  have hb : b ∈ a::others := (hl'.symm.trans hl).mem_iff.mp List.mem_cons_self
  rcases List.mem_cons.mp ha with heq | ha
  · exact heq
  · rcases List.mem_cons.mp hb with heq | hb
    · exact heq.symm
    · exact absurd (hless b hb) (hless' a ha).asymm

/-- Two elements of the list share the highest score. -/
def SharesTop (score : α → κ) (l : List α) (a b : α) : Prop :=
  ∃ rest, l.Perm (a::b::rest) ∧ score a = score b ∧ ∀ c ∈ rest, score c ≤ score a

theorem SharesTop.top {c : α} (h : SharesTop score l a b) (hc : c ∈ l) : score c ≤ score a := by
  obtain ⟨rest,hl,heq,hle⟩ := h
  rcases List.mem_cons.mp (hl.mem_iff.mp hc) with rfl | hc
  · exact le_refl _
  · rcases List.mem_cons.mp hc with rfl | hc
    · exact heq.ge
    · exact hle c hc

/-- Where the top is shared nobody wins. -/
theorem SharesTop.not_wins {c : α} (h : SharesTop score l a b) : ¬Wins score l c := by
  rintro ⟨others,hl',hless⟩
  have hc := h.top (hl'.mem_iff.mpr List.mem_cons_self)
  obtain ⟨rest,hl,heq,_⟩ := h
  have hperm := hl'.symm.trans hl
  have hfirst : a = c := by
    rcases List.mem_cons.mp (hperm.mem_iff.mpr List.mem_cons_self) with ha | ha
    · exact ha
    · exact absurd (hless a ha) hc.not_gt
  subst hfirst
  have hb : b ∈ others := ((List.perm_cons a).mp hperm).mem_iff.mpr List.mem_cons_self
  exact absurd (hless b hb) heq.not_gt

/-- Where the top is shared, the first two scores of the ranking are the highest one. -/
theorem SharesTop.second (h : SharesTop score l a b) : ∃ best second rest,
    ranking score l = best::second::rest ∧ best.2 = score a ∧ second.2 = score a := by
  have htop : ∀ c ∈ l, score c ≤ score a := fun c hc => h.top hc
  obtain ⟨others,hl,heq,_⟩ := h
  have hscores := (ranking_scores score l).trans (hl.map score)
  rw [List.map_cons, List.map_cons] at hscores
  cases hranking : ranking score l with
  | nil =>
    rw [hranking] at hscores
    cases List.nil_perm.mp hscores
  | cons best tail =>
    obtain ⟨hbest,hperm,htail⟩ := ranking_cons hranking
    rw [hranking, List.map_cons] at hscores
    have hle : best.2 ≤ score a := hbest ▸ htop best.1 (hperm.mem_iff.mpr List.mem_cons_self)
    have hge : score a ≤ best.2 := by
      rcases List.mem_cons.mp (hscores.mem_iff.mpr List.mem_cons_self) with ha | ha
      · exact ha.le
      · obtain ⟨p,hp,hpa⟩ := List.mem_map.mp ha
        exact hpa ▸ (htail p hp).2
    have hfirst : best.2 = score a := le_antisymm hle hge
    rw [hfirst] at hscores
    have hrest := ((List.perm_cons _).mp hscores).mem_iff.mpr List.mem_cons_self
    cases tail with
    | nil => cases hrest
    | cons second rest =>
      refine ⟨best,second,rest,rfl,hfirst,le_antisymm ?_ ?_⟩
      · exact hfirst ▸ (htail second List.mem_cons_self).2
      · have hsorted := ranking_sorted score l
        rw [hranking] at hsorted
        have hbelow := (List.pairwise_cons.mp (List.pairwise_cons.mp hsorted).2).1
        rw [heq]
        rcases List.mem_cons.mp hrest with hb | hb
        · exact hb.le
        · obtain ⟨p,hp,hpb⟩ := List.mem_map.mp hb
          exact hpb ▸ hbelow p hp

end NexusEtl.Library
