import NexusEtl.Library.Dict
import Mathlib.Data.List.Basic

/-!
# Buckets of positions

A list of keys is indexed by collecting under each key the positions at which it
stands. What the index gives for a key are these positions, in order.
-/

set_option autoImplicit false

namespace NexusEtl.Library.Buckets

variable {κ α : Type} [DecidableEq κ]

/-- Another position of a key, after those collected before. -/
def add (buckets : Dict κ (List Nat)) (entry : κ × Nat) : Dict κ (List Nat) :=
  Dict.set buckets entry.1 ((Dict.get? buckets entry.1).getD [] ++ [entry.2])

def index (keys : List κ) : Dict κ (List Nat) := keys.zipIdx.foldl add []

def positions (keys : List κ) (k : κ) : List Nat :=
  (keys.zipIdx.filter fun entry => entry.1 = k).map Prod.snd

theorem get?_foldl_add (entries : List (κ × Nat)) (buckets : Dict κ (List Nat)) (k : κ) :
    (Dict.get? (entries.foldl add buckets) k).getD [] =
      (Dict.get? buckets k).getD [] ++
        (entries.filter fun entry => entry.1 = k).map Prod.snd := by
  induction entries generalizing buckets with
  | nil => simp
  | cons entry entries ih =>
    rw [List.foldl_cons, ih, add, Dict.get?_set]
    by_cases hk : entry.1 = k
    · subst hk
      simp
    · simp [hk]

/-- The index gives for every key the positions of the key. -/
theorem get?_index (keys : List κ) (k : κ) :
    (Dict.get? (index keys) k).getD [] = positions keys k := by
  rw [index, get?_foldl_add]
  rfl

theorem isSome_foldl_add (entries : List (κ × Nat)) (buckets : Dict κ (List Nat)) (k : κ) :
    (Dict.get? (entries.foldl add buckets) k).isSome = true ↔
      (Dict.get? buckets k).isSome = true ∨ k ∈ entries.map Prod.fst := by
  induction entries generalizing buckets with
  | nil => simp
  | cons entry entries ih =>
    rw [List.foldl_cons, ih, add, Dict.get?_set, List.map_cons, List.mem_cons]
    by_cases hk : entry.1 = k
    · simp [hk]
    · simp [hk, Ne.symm hk]

/-- The index has an entry for the keys of the list. -/
theorem isSome_index (keys : List κ) (k : κ) :
    (Dict.get? (index keys) k).isSome = true ↔ k ∈ keys := by
  rw [index, isSome_foldl_add, List.zipIdx_map_fst]
  simp

theorem length_positions (keys : List κ) (k : κ) : (positions keys k).length = keys.count k := by
  have hcount : keys.count k = (keys.zipIdx.map Prod.fst).countP fun key => decide (key = k) := by
    rw [List.zipIdx_map_fst]
    exact List.countP_congr fun key _ => by simp
  rw [hcount, List.countP_map, positions, List.length_map, List.countP_eq_length_filter]
  rfl

/-- Keys are distinct when no bucket holds two positions. -/
theorem nodup_of_index {keys : List κ} (h : ∀ entry ∈ index keys, entry.2.length ≤ 1) :
    keys.Nodup := by
  rw [List.nodup_iff_count_le_one]
  intro k
  rw [← length_positions, ← get?_index]
  cases hget : Dict.get? (index keys) k with
  | none => exact Nat.zero_le 1
  | some found => exact h _ (Dict.mem_of_get? hget)

/-- The items at the positions of a key are those that stand beside it. -/
theorem map_positions {keys : List κ} {items : List α} (h : keys.length = items.length)
    (default : α) (k : κ) :
    (positions keys k).map (fun i => items[i]?.getD default) =
      ((keys.zip items).filter fun entry => entry.1 = k).map Prod.snd := by
  have hall : ∀ (rest : List κ) (tail front : List α), rest.length = tail.length →
      ((rest.zipIdx front.length).filter fun entry => entry.1 = k).map
          (fun entry => (front ++ tail)[entry.2]?.getD default) =
        ((rest.zip tail).filter fun entry => entry.1 = k).map Prod.snd := by
    intro rest
    induction rest with
    | nil => simp
    | cons key rest ih =>
      intro tail front hlength
      cases tail with
      | nil => cases hlength
      | cons item tail =>
        have hrest := ih tail (front ++ [item]) (Nat.succ.inj hlength)
        rw [List.append_assoc, List.singleton_append, List.length_append,
          List.length_singleton] at hrest
        rw [List.zipIdx_cons, List.zip_cons_cons, List.filter_cons, List.filter_cons]
        by_cases hk : key = k
        · simp only [hk, decide_true, if_true, List.map_cons, hrest]
          simp
        · simpa only [hk, decide_false, Bool.false_eq_true, if_false] using hrest
  simpa [positions, Function.comp_def] using hall keys items [] h

end NexusEtl.Library.Buckets
