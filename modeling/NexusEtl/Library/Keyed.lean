import Mathlib.Data.List.Nodup

/-!
# Rows with a key

A table is a list of rows and a key is a function of a row. Replacing the rows
of one key by a given row leaves the rows of every other key as they are.
-/

set_option autoImplicit false

namespace NexusEtl.Library.Keyed

variable {α κ : Type} [DecidableEq κ] (key : α → κ)

/-- The rows with the key of `new` become `new`. -/
def replace (new : α) (rows : List α) : List α :=
  rows.map fun row => if key row = key new then new else row

def withKey (k : κ) (rows : List α) : List α := rows.filter fun row => key row = k

def without (k : κ) (rows : List α) : List α := rows.filter fun row => ¬ key row = k

theorem mem_withKey {k : κ} {rows : List α} {row : α} :
    row ∈ withKey key k rows ↔ row ∈ rows ∧ key row = k := by
  simp [withKey]

theorem mem_without {k : κ} {rows : List α} {row : α} :
    row ∈ without key k rows ↔ row ∈ rows ∧ ¬ key row = k := by
  simp [without]

theorem key_replaced (new row : α) : key (if key row = key new then new else row) = key row := by
  by_cases h : key row = key new
  · rw [if_pos h, h]
  · rw [if_neg h]

/-- Replacing keeps keys, so it commutes with a choice of rows by their keys. -/
theorem filter_replace (p : κ → Bool) (new : α) (rows : List α) :
    (replace key new rows).filter (fun row => p (key row)) =
      replace key new (rows.filter fun row => p (key row)) := by
  have hkeys : ((fun row => p (key row)) ∘ fun row => if key row = key new then new else row) =
      fun row => p (key row) :=
    funext fun row => congrArg p (key_replaced key new row)
  rw [replace, List.filter_map, hkeys]
  rfl

theorem replace_eq_self_of_ne {new : α} {rows : List α} (h : ∀ row ∈ rows, key row ≠ key new) :
    replace key new rows = rows := by
  have hid : ∀ row ∈ rows, (if key row = key new then new else row) = row :=
    fun row hrow => if_neg (h row hrow)
  rw [replace, List.map_congr_left hid, List.map_id']

theorem withKey_replace_ne {new : α} {k : κ} (h : key new ≠ k) (rows : List α) :
    withKey key k (replace key new rows) = withKey key k rows := by
  rw [withKey, filter_replace key (fun x => x = k)]
  exact replace_eq_self_of_ne key fun row hrow heq =>
    h (heq.symm.trans ((mem_withKey key).mp hrow).2)

theorem withKey_replace_self (new : α) (rows : List α) :
    withKey key (key new) (replace key new rows) = (withKey key (key new) rows).map fun _ => new := by
  rw [withKey, filter_replace key (fun x => x = key new)]
  exact List.map_congr_left fun row hrow => if_pos ((mem_withKey key).mp hrow).2

theorem without_replace_self (new : α) (rows : List α) :
    without key (key new) (replace key new rows) = without key (key new) rows := by
  rw [without, filter_replace key (fun x => ¬ x = key new)]
  exact replace_eq_self_of_ne key fun row hrow => ((mem_without key).mp hrow).2

/-- Replacing changes nothing where the rows of the key are the new row already. -/
theorem replace_eq_self {new : α} {rows : List α}
    (h : ∀ row ∈ rows, key row = key new → row = new) : replace key new rows = rows := by
  have hid : ∀ row ∈ rows, (if key row = key new then new else row) = row := by
    intro row hrow
    by_cases hk : key row = key new
    · rw [if_pos hk, h row hrow hk]
    · rw [if_neg hk]
  rw [replace, List.map_congr_left hid, List.map_id']

theorem mem_replace {new : α} {rows : List α} {row : α} (hrow : row ∈ rows)
    (hk : key row = key new) : new ∈ replace key new rows :=
  List.mem_map.mpr ⟨row,hrow,if_pos hk⟩

theorem withKey_eq_nil {k : κ} {rows : List α} :
    withKey key k rows = [] ↔ ∀ row ∈ rows, key row ≠ k := by
  simp [withKey, List.filter_eq_nil_iff]

theorem withKey_append (k : κ) (rows more : List α) :
    withKey key k (rows ++ more) = withKey key k rows ++ withKey key k more :=
  List.filter_append ..

theorem without_append (k : κ) (rows more : List α) :
    without key k (rows ++ more) = without key k rows ++ without key k more :=
  List.filter_append ..

theorem withKey_singleton_self (row : α) : withKey key (key row) [row] = [row] := by
  simp [withKey]

theorem without_singleton_self (row : α) : without key (key row) [row] = [] := by
  simp [without]

theorem without_singleton_ne {row : α} {k : κ} (h : key row ≠ k) :
    without key k [row] = [row] := by
  simp [without, h]

/-- Where the keys that count are distinct, a row is the only one with its key. -/
theorem withKey_eq_singleton {p : κ → Bool} {rows : List α} {row : α}
    (hnodup : ((rows.map key).filter p).Nodup) (hp : p (key row) = true) (hrow : row ∈ rows) :
    withKey key (key row) rows = [row] := by
  induction rows with
  | nil => cases hrow
  | cons first rows ih =>
    rw [List.map_cons, List.filter_cons] at hnodup
    by_cases hk : key first = key row
    · rw [hk, hp, if_pos rfl] at hnodup
      have hfresh := (List.nodup_cons.mp hnodup).1
      have hnone : ∀ other ∈ rows, key other ≠ key row := by
        intro other hother heq
        exact hfresh (List.mem_filter.mpr ⟨List.mem_map.mpr ⟨other,hother,heq⟩,hp⟩)
      have hfirst : row = first := by
        rcases List.mem_cons.mp hrow with heq | hmem
        · exact heq
        · exact absurd rfl (hnone row hmem)
      have htail := (withKey_eq_nil key).mpr hnone
      rw [withKey, List.filter_cons, if_pos (decide_eq_true hk), hfirst] at *
      exact congrArg (first::·) htail
    · have hmem : row ∈ rows := (List.mem_cons.mp hrow).resolve_left fun heq => hk (heq ▸ rfl)
      have htail : ((rows.map key).filter p).Nodup := by
        by_cases hpf : p (key first) = true
        · rw [if_pos hpf] at hnodup
          exact (List.nodup_cons.mp hnodup).2
        · rwa [if_neg hpf] at hnodup
      rw [withKey, List.filter_cons, if_neg (by simp [hk])]
      exact ih htail hmem

end NexusEtl.Library.Keyed
