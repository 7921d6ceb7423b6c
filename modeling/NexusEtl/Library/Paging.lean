import Mathlib.Data.List.Basic

/-!
# The pages of a list

A list is read in pages of one size, at most a given number of them. What is
still to come shrinks by one page at a time, and a page that is not full is the last.
-/

set_option autoImplicit false

namespace NexusEtl.Library
namespace Paging

variable {α : Type}

/-- The page after `k` pages. -/
def pageAt (items : List α) (size k : Nat) : List α := (items.drop (k*size)).take size

/-- What a reader gets that stops after a number of pages. -/
def capped (items : List α) (size : Nat) : Option Nat → List α
  | none => items
  | some limit => items.take (limit*size)

/-- What is still to come after `k` pages. -/
def rest (items : List α) (size : Nat) (limit : Option Nat) (k : Nat) : List α :=
  (capped items size limit).drop (k*size)

theorem rest_zero (items : List α) (size : Nat) (limit : Option Nat) :
    rest items size limit 0 = capped items size limit := by
  rw [rest, Nat.zero_mul, List.drop_zero]

/-- The pages in order, from `k` on. -/
theorem flatMap_pageAt (items : List α) (size k j : Nat) :
    (List.range' k j).flatMap (pageAt items size) = (items.drop (k*size)).take (j*size) := by
  induction j generalizing k with
  | zero => simp
  | succ j ih =>
    have hdrop : items.drop ((k+1)*size) = (items.drop (k*size)).drop size := by
      rw [List.drop_drop, Nat.succ_mul]
    rw [List.range'_succ, List.flatMap_cons, ih, hdrop, pageAt, ← List.take_add]
    congr 1
    rw [Nat.succ_mul]
    omega

theorem rest_step {limit : Option Nat} {k : Nat} (items : List α) (size : Nat)
    (h : ∀ m, limit = some m → k < m) :
    rest items size limit k = pageAt items size k ++ rest items size limit (k+1) := by
  have hdrop (l : List α) : l.drop ((k+1)*size) = (l.drop (k*size)).drop size := by
    rw [List.drop_drop, Nat.succ_mul]
  cases limit with
  | none =>
    rw [rest, rest, hdrop, capped, pageAt, List.take_append_drop]
  | some m =>
    have hk : (k+1)*size ≤ m*size := Nat.mul_le_mul_right size (h m rfl)
    rw [Nat.succ_mul] at hk
    have hpage : pageAt items size k = ((items.take (m*size)).drop (k*size)).take size := by
      rw [pageAt, List.drop_take, List.take_take, Nat.min_eq_left (by omega)]
    rw [rest, rest, hdrop, capped, hpage, List.take_append_drop]

theorem rest_of_limit {m k : Nat} (items : List α) (size : Nat) (h : m ≤ k) :
    rest items size (some m) k = [] := by
  apply List.drop_eq_nil_of_le
  rw [capped, List.length_take]
  have hk : m*size ≤ k*size := Nat.mul_le_mul_right size h
  omega

/-- After a page that is not full nothing comes. -/
theorem rest_of_short {limit : Option Nat} {k : Nat} {items : List α} {size : Nat}
    (h : (pageAt items size k).length < size) : rest items size limit (k+1) = [] := by
  rw [pageAt, List.length_take, List.length_drop] at h
  apply List.drop_eq_nil_of_le
  have hlength : (capped items size limit).length ≤ items.length := by
    cases limit with
    | none => exact Nat.le_refl _
    | some m =>
      rw [capped, List.length_take]
      omega
  rw [Nat.succ_mul]
  omega

/-- A full page leaves less to read. -/
theorem length_of_full {k : Nat} {items : List α} {size : Nat} (hpos : 0 < size)
    (h : ¬(pageAt items size k).length < size) : (k+1)*size ≤ items.length := by
  rw [pageAt, List.length_take, List.length_drop] at h
  rw [Nat.succ_mul]
  omega

end Paging
end NexusEtl.Library
