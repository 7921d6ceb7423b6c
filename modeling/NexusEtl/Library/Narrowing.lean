import Mathlib.Data.Set.Insert

/-!
# Narrowing a choice

A set of candidates is narrowed by one condition after the other. A condition
that no candidate meets is passed over, so the choice never becomes empty.
-/

set_option autoImplicit false

namespace NexusEtl.Library.Narrowing

variable {α : Type}

open Classical in
/-- The candidates that meet a condition, or all of them when none does. -/
noncomputable def narrowBy (s p : Set α) : Set α := if (s ∩ p).Nonempty then s ∩ p else s

noncomputable def cascade (s : Set α) (ps : List (Set α)) : Set α := ps.foldl narrowBy s

theorem narrowBy_of_meets {s p : Set α} (h : (s ∩ p).Nonempty) : narrowBy s p = s ∩ p := if_pos h

theorem narrowBy_of_misses {s p : Set α} (h : ¬ (s ∩ p).Nonempty) : narrowBy s p = s := if_neg h

theorem narrowBy_subset (s p : Set α) : narrowBy s p ⊆ s := by
  by_cases h : (s ∩ p).Nonempty
  · rw [narrowBy_of_meets h]
    exact Set.inter_subset_left
  · rw [narrowBy_of_misses h]

theorem narrowBy_nonempty {s : Set α} (hs : s.Nonempty) (p : Set α) : (narrowBy s p).Nonempty := by
  by_cases h : (s ∩ p).Nonempty
  · rw [narrowBy_of_meets h]
    exact h
  · rw [narrowBy_of_misses h]
    exact hs

theorem cascade_subset (s : Set α) (ps : List (Set α)) : cascade s ps ⊆ s := by
  induction ps generalizing s with
  | nil => exact subset_rfl
  | cons p ps ih => exact (ih (narrowBy s p)).trans (narrowBy_subset s p)

theorem cascade_nonempty {s : Set α} (hs : s.Nonempty) (ps : List (Set α)) :
    (cascade s ps).Nonempty := by
  induction ps generalizing s with
  | nil => exact hs
  | cons p ps ih => exact ih (narrowBy_nonempty hs p)

/-- A single candidate is the choice, whatever the conditions are. -/
theorem cascade_singleton (a : α) (ps : List (Set α)) : cascade {a} ps = {a} := by
  have hsubset := cascade_subset {a} ps
  have hnonempty := cascade_nonempty (Set.singleton_nonempty a) ps
  exact (Set.Nonempty.subset_singleton_iff hnonempty).mp hsubset

theorem cascade_empty (ps : List (Set α)) : cascade ∅ ps = ∅ :=
  Set.subset_empty_iff.mp (cascade_subset ∅ ps)

end NexusEtl.Library.Narrowing
