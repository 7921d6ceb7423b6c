import NexusEtl.Library.Dict

/-!
# Patches of a keyed record

A rule reads one place of a record and wants a value there. A patch lists the
rules whose place holds something else, under labels of their own. A patch
written back into the record, label by label, leaves a record whose patch holds
only rules that are not content with the value they want.
-/

set_option autoImplicit false

namespace NexusEtl.Library.Patches

variable {ρ κ β : Type} [DecidableEq κ]
variable (place label : ρ → κ) (wanted : ρ → β) (differs : ρ → Option β → Bool)

def changed (rules : List ρ) (record : Dict κ β) : List ρ :=
  rules.filter fun r => differs r (Dict.get? record (place r))

def patch (rules : List ρ) (record : Dict κ β) : Dict κ β :=
  (changed place differs rules record).map fun r => (label r,wanted r)

/-- One value of the patch goes to the place of the rule with its label. -/
def put (changes record : Dict κ β) (r : ρ) : Dict κ β :=
  match Dict.get? changes (label r) with
  | some v => Dict.set record (place r) v
  | none => record

def write (rules : List ρ) (changes record : Dict κ β) : Dict κ β :=
  rules.foldl (put place label changes) record

variable {place label wanted differs}

theorem get?_put_self (changes record : Dict κ β) (r : ρ) :
    Dict.get? (put place label changes record r) (place r) =
      (Dict.get? changes (label r)).or (Dict.get? record (place r)) := by
  unfold put
  cases Dict.get? changes (label r) with
  | none => rfl
  | some v => exact Dict.get?_set_self _ _ _

theorem get?_put_ne (changes record : Dict κ β) {r : ρ} {x : κ} (h : place r ≠ x) :
    Dict.get? (put place label changes record r) x = Dict.get? record x := by
  unfold put
  split
  · exact Dict.get?_set_ne _ _ h
  · rfl

theorem get?_write_of_not_mem {rules : List ρ} {changes record : Dict κ β} {x : κ}
    (h : ∀ r ∈ rules, place r ≠ x) :
    Dict.get? (write place label rules changes record) x = Dict.get? record x := by
  induction rules generalizing record with
  | nil => rfl
  | cons r rules ih =>
    have hrest : Dict.get? (write place label rules changes (put place label changes record r)) x =
        Dict.get? (put place label changes record r) x :=
      ih fun s hs => h s (List.mem_cons_of_mem _ hs)
    rw [get?_put_ne _ _ (h r List.mem_cons_self)] at hrest
    exact hrest

/-- A place holds what the patch has under the label of its rule, else what it held. -/
theorem get?_write {rules : List ρ} (hplaces : (rules.map place).Nodup)
    {changes record : Dict κ β} {r : ρ} (hr : r ∈ rules) :
    Dict.get? (write place label rules changes record) (place r) =
      (Dict.get? changes (label r)).or (Dict.get? record (place r)) := by
  induction rules generalizing record with
  | nil => cases hr
  | cons s rules ih =>
    obtain ⟨hfresh,hrest⟩ := List.nodup_cons.mp hplaces
    have hne (t : ρ) (ht : t ∈ rules) : place t ≠ place s := by
      intro heq
      exact hfresh (heq ▸ List.mem_map_of_mem ht)
    show Dict.get? (write place label rules changes (put place label changes record s)) _ = _
    rcases List.mem_cons.mp hr with rfl | hr
    · rw [get?_write_of_not_mem hne, get?_put_self]
    · rw [ih hrest hr, get?_put_ne _ _ (hne r hr).symm]

theorem nodup_labels_changed {rules : List ρ} (h : (rules.map label).Nodup) (record : Dict κ β) :
    ((changed place differs rules record).map label).Nodup :=
  h.sublist (List.filter_sublist.map _)

theorem get?_patch {rules : List ρ} (hlabels : (rules.map label).Nodup) (record : Dict κ β)
    {r : ρ} (hr : r ∈ rules) :
    Dict.get? (patch place label wanted differs rules record) (label r) =
      if differs r (Dict.get? record (place r)) then some (wanted r) else none := by
  by_cases hd : differs r (Dict.get? record (place r)) = true
  · rw [if_pos hd]
    exact Dict.get?_map_of_mem label wanted (nodup_labels_changed hlabels record)
      (List.mem_filter.mpr ⟨hr,hd⟩)
  · rw [if_neg hd]
    apply Dict.get?_eq_none
    intro hmem
    obtain ⟨s,hs,heq⟩ : ∃ s ∈ changed place differs rules record, label s = label r := by
      simpa [Dict.keys, patch] using hmem
    obtain ⟨hs,hdiff⟩ := List.mem_filter.mp hs
    have hsame : s = r := List.inj_on_of_nodup_map hlabels hs hr heq
    exact hd (hsame ▸ hdiff)

/-- What differs after the patch is written is what differs from the very value it wants. -/
theorem changed_write {rules : List ρ} (hplaces : (rules.map place).Nodup)
    (hlabels : (rules.map label).Nodup) (record : Dict κ β) :
    changed place differs rules
        (write place label rules (patch place label wanted differs rules record) record) =
      (changed place differs rules record).filter fun r => differs r (some (wanted r)) := by
  unfold changed
  rw [List.filter_filter]
  apply List.filter_congr
  intro r hr
  rw [get?_write hplaces hr, get?_patch hlabels record hr]
  cases hd : differs r (Dict.get? record (place r)) <;> simp [hd]

/-- A patch that is written back is done: nothing is left to change. -/
theorem patch_write {rules : List ρ} (hplaces : (rules.map place).Nodup)
    (hlabels : (rules.map label).Nodup)
    (hcontent : ∀ r ∈ rules, differs r (some (wanted r)) = false) (record : Dict κ β) :
    patch place label wanted differs rules
      (write place label rules (patch place label wanted differs rules record) record) = [] := by
  have hnone : changed place differs rules
      (write place label rules (patch place label wanted differs rules record) record) = [] := by
    rw [changed_write hplaces hlabels]
    apply List.filter_eq_nil_iff.mpr
    intro r hr
    simp [hcontent r (List.mem_filter.mp hr).1]
  rw [patch, hnone]
  rfl

/-- A patch collected entry by entry. -/
theorem foldl_eq_patch {rules : List ρ} (hlabels : (rules.map label).Nodup) (record : Dict κ β) :
    rules.foldl (fun changes r => if differs r (Dict.get? record (place r)) then
        Dict.set changes (label r) (wanted r) else changes) [] =
      patch place label wanted differs rules record := by
  rw [patch, ← List.foldl_filter]
  exact Dict.foldl_set_eq_append label wanted (changed place differs rules record) []
    (by simpa [Dict.keys] using nodup_labels_changed hlabels record)

/-- Entries set one after the other: the last one for a key stands, else what was there. -/
theorem get?_foldl_set_value {γ : Type} (key : γ → κ) (value : γ → β) (items : List γ)
    (d : Dict κ β) (x : κ) :
    Dict.get? (items.foldl (fun acc c => Dict.set acc (key c) (value c)) d) x =
      ((items.reverse.find? fun c => key c = x).map value).or (Dict.get? d x) := by
  induction items generalizing d with
  | nil => rfl
  | cons c items ih =>
    rw [List.foldl_cons, ih, List.reverse_cons, List.find?_append, Dict.get?_set]
    cases items.reverse.find? fun c => decide (key c = x) with
    | some found => rfl
    | none =>
      by_cases hkey : key c = x
      · simp [hkey]
      · simp [hkey]

section Overrides
variable (key : β → κ)

theorem get?_foldl_set (items : List β) (d : Dict κ β) (x : κ) :
    Dict.get? (items.foldl (fun acc c => Dict.set acc (key c) c) d) x =
      (items.reverse.find? fun c => key c = x).or (Dict.get? d x) := by
  have h := get?_foldl_set_value key id items d x
  simpa using h

end Overrides
end NexusEtl.Library.Patches
