import Mathlib.Data.List.Nodup
import Mathlib.Data.List.Basic

/-!
# Insertion-ordered dictionaries

A dictionary is an association list that keeps the order in which keys were
first written. Assignment replaces in place, a new key goes to the end, and
reading takes the first entry of a key. Only the laws that programs over such
dictionaries use are stated: reading after writing, and what a write may add.
-/

set_option autoImplicit false

namespace NexusEtl.Library

abbrev Dict (α β : Type) := List (α × β)

namespace Dict

variable {α β : Type} [DecidableEq α]

def get? : Dict α β → α → Option β
  | [], _ => none
  | (k,v)::d, x => if k = x then some v else get? d x

def contains (d : Dict α β) (x : α) : Bool := (get? d x).isSome

def set : Dict α β → α → β → Dict α β
  | [], x, v => [(x,v)]
  | (k,w)::d, x, v => if k = x then (k,v)::d else (k,w)::set d x v

def keys (d : Dict α β) : List α := d.map Prod.fst

def values (d : Dict α β) : List β := d.map Prod.snd

/-- Assign every entry of `e` in order, as `d.update(e)` does. -/
def update (d : Dict α β) (e : Dict α β) : Dict α β :=
  e.foldl (fun d kv => set d kv.1 kv.2) d

@[simp] theorem get?_nil (x : α) : get? ([] : Dict α β) x = none := rfl

@[simp] theorem get?_set_self (d : Dict α β) (x : α) (v : β) : get? (set d x v) x = some v := by
  induction d with
  | nil => simp [set, get?]
  | cons p d ih =>
    obtain ⟨k,w⟩ := p
    by_cases h : k = x
    · simp [set, get?, h]
    · simp [set, get?, h, ih]

theorem get?_set_ne (d : Dict α β) {x y : α} (v : β) (h : x ≠ y) :
    get? (set d x v) y = get? d y := by
  induction d with
  | nil => simp [set, get?, h]
  | cons p d ih =>
    obtain ⟨k,w⟩ := p
    by_cases hk : k = x
    · subst hk
      simp [set, get?, h]
    · simp only [set, hk, if_false, get?, ih]

theorem get?_set (d : Dict α β) (x y : α) (v : β) :
    get? (set d x v) y = if x = y then some v else get? d y := by
  by_cases h : x = y
  · subst h
    simp
  · simp [h, get?_set_ne d v h]

theorem mem_of_get? {d : Dict α β} {x : α} {v : β} (h : get? d x = some v) : (x,v) ∈ d := by
  induction d with
  | nil => simp at h
  | cons p d ih =>
    obtain ⟨k,w⟩ := p
    by_cases hk : k = x
    · subst hk
      simp only [get?, if_true, Option.some.injEq] at h
      simp [h]
    · simp only [get?, hk, if_false] at h
      exact List.mem_cons_of_mem _ (ih h)

theorem mem_set_self (d : Dict α β) (x : α) (v : β) : (x,v) ∈ set d x v :=
  mem_of_get? (get?_set_self d x v)

theorem mem_of_mem_set {d : Dict α β} {x : α} {v : β} {entry : α × β} (h : entry ∈ set d x v) :
    entry = (x,v) ∨ entry ∈ d := by
  induction d with
  | nil => exact .inl (List.mem_singleton.mp h)
  | cons p d ih =>
    obtain ⟨k,w⟩ := p
    by_cases hk : k = x
    · subst hk
      rw [set, if_pos rfl] at h
      rcases List.mem_cons.mp h with rfl | hd
      · exact .inl rfl
      · exact .inr (.tail _ hd)
    · rw [set, if_neg hk] at h
      rcases List.mem_cons.mp h with rfl | hset
      · exact .inr List.mem_cons_self
      · exact (ih hset).imp_right (.tail _)

theorem get?_eq_none {d : Dict α β} {x : α} (h : x ∉ keys d) : get? d x = none := by
  induction d with
  | nil => rfl
  | cons p d ih =>
    obtain ⟨k,w⟩ := p
    simp only [keys, List.map_cons, List.mem_cons, not_or] at h
    simp only [get?, Ne.symm h.1, if_false]
    exact ih h.2

theorem not_mem_of_get?_eq_none {d : Dict α β} {x : α} (h : get? d x = none) (v : β) :
    (x,v) ∉ d := by
  induction d with
  | nil => simp
  | cons p d ih =>
    obtain ⟨k,w⟩ := p
    by_cases hk : k = x
    · simp [get?, hk] at h
    · simp only [get?, hk, if_false] at h
      intro hmem
      rcases List.mem_cons.mp hmem with heq | hmem
      · exact hk (Prod.mk.inj heq).1.symm
      · exact ih h hmem

theorem mem_keys_iff {d : Dict α β} {x : α} : x ∈ keys d ↔ (get? d x).isSome = true := by
  constructor
  · intro h
    obtain ⟨p,hp,rfl⟩ := List.mem_map.mp h
    by_contra hnone
    exact not_mem_of_get?_eq_none (Option.not_isSome_iff_eq_none.mp hnone) p.2 hp
  · intro h
    by_contra hnot
    rw [get?_eq_none hnot] at h
    cases h

/-- A key that is not there yet goes to the end. -/
theorem set_eq_append {d : Dict α β} {x : α} (h : x ∉ keys d) (v : β) : set d x v = d ++ [(x,v)] := by
  induction d with
  | nil => rfl
  | cons p d ih =>
    obtain ⟨k,w⟩ := p
    have hne : k ≠ x := fun heq => h (by simp [keys, heq])
    simp only [set, hne, if_false, List.cons_append]
    rw [ih fun hx => h (List.mem_cons_of_mem _ hx)]

/-- Writing a key that is there leaves the keys as they are. -/
theorem keys_set_of_mem {d : Dict α β} {x : α} (h : x ∈ keys d) (v : β) :
    keys (set d x v) = keys d := by
  induction d with
  | nil => cases h
  | cons p d ih =>
    obtain ⟨k,w⟩ := p
    by_cases hk : k = x
    · simp [set, hk, keys]
    · have hd : x ∈ keys d := (List.mem_cons.mp h).resolve_left (Ne.symm hk)
      simp only [set, hk, if_false]
      exact congrArg (k::·) (ih hd)

theorem nodup_keys_set {d : Dict α β} (h : (keys d).Nodup) (x : α) (v : β) :
    (keys (set d x v)).Nodup := by
  by_cases hx : x ∈ keys d
  · rw [keys_set_of_mem hx]
    exact h
  · rw [set_eq_append hx]
    simp only [keys, List.map_append, List.map_cons, List.map_nil]
    exact List.nodup_append.mpr ⟨h,List.nodup_singleton _,fun a ha b hb heq =>
      hx (List.mem_singleton.mp hb ▸ heq ▸ ha)⟩

theorem mem_iff_get? {d : Dict α β} (h : (keys d).Nodup) {x : α} {v : β} :
    (x,v) ∈ d ↔ get? d x = some v := by
  constructor
  · intro hmem
    induction d with
    | nil => cases hmem
    | cons p d ih =>
      obtain ⟨k,w⟩ := p
      obtain ⟨hk,hd⟩ := List.nodup_cons.mp h
      rcases List.mem_cons.mp hmem with heq | hmem
      · cases heq
        simp [get?]
      · have hne : k ≠ x := by
          rintro rfl
          exact hk (List.mem_map.mpr ⟨_,hmem,rfl⟩)
        simp only [get?, hne, if_false]
        exact ih hd hmem
  · exact mem_of_get?

theorem get?_mapEntries {γ : Type} (d : Dict α β) (f : α → β → γ) (x : α) :
    get? (d.map fun e => (e.1,f e.1 e.2)) x = (get? d x).map (f x) := by
  induction d with
  | nil => rfl
  | cons p d ih =>
    obtain ⟨k,w⟩ := p
    by_cases hk : k = x
    · simp [get?, hk]
    · simp only [List.map_cons, get?, hk, if_false]
      exact ih

theorem get?_mapValues {γ : Type} (d : Dict α β) (f : β → γ) (x : α) :
    get? (d.map fun e => (e.1,f e.2)) x = (get? d x).map f :=
  get?_mapEntries d (fun _ => f) x

/-- Reading from two dictionaries in a row: the entry of the first, else of the second. -/
theorem get?_filterMapValues {γ : Type} {d : Dict α β} (h : (keys d).Nodup) (f : β → Option γ)
    (x : α) : get? (d.filterMap fun entry => (f entry.2).map fun v => (entry.1,v)) x =
      (get? d x).bind f := by
  induction d with
  | nil => rfl
  | cons entry d ih =>
    obtain ⟨k,w⟩ := entry
    obtain ⟨hk,hd⟩ := List.nodup_cons.mp h
    by_cases hx : k = x
    · subst hx
      cases hw : f w with
      | none =>
        simp only [List.filterMap_cons, hw, Option.map_none, get?, if_true, Option.bind_some]
        rw [ih hd, get?_eq_none hk]
        rfl
      | some v =>
        simp [hw, get?]
    · cases hw : f w with
      | none =>
        simp only [List.filterMap_cons, hw, Option.map_none, get?, if_neg hx]
        exact ih hd
      | some v =>
        simp only [List.filterMap_cons, hw, Option.map_some, get?, if_neg hx]
        exact ih hd

theorem get?_append (d e : Dict α β) (x : α) :
    get? (d ++ e : List (α × β)) x = (get? d x).or (get? e x) := by
  induction d with
  | nil => rfl
  | cons p d ih =>
    obtain ⟨k,v⟩ := p
    by_cases hx : k = x
    · simp [get?, hx]
    · simp only [List.cons_append, get?, hx, if_false]
      exact ih

/-- Reading after an update by a dictionary with distinct keys: its entry, else the old one. -/
theorem get?_update (d : Dict α β) {e : Dict α β} (h : (keys e).Nodup) (x : α) :
    get? (update d e) x = (get? e x).or (get? d x) := by
  induction e generalizing d with
  | nil => rfl
  | cons p e ih =>
    obtain ⟨k,v⟩ := p
    obtain ⟨hk,he⟩ := List.nodup_cons.mp h
    have hstep : update d ((k,v)::e) = update (set d k v) e := rfl
    rw [hstep, ih (set d k v) he, get?_set]
    by_cases hx : k = x
    · subst hx
      simp [get?, get?_eq_none hk]
    · simp [get?, hx]

/-- Two dictionaries with the same distinct keys in the same order are equal when they
read alike. -/
theorem ext_keys {d e : Dict α β} (hkeys : keys d = keys e) (hd : (keys d).Nodup)
    (h : ∀ x ∈ keys d, get? d x = get? e x) : d = e := by
  induction d generalizing e with
  | nil => exact (List.map_eq_nil_iff.mp hkeys.symm).symm
  | cons p d ih =>
    obtain ⟨k,v⟩ := p
    cases e with
    | nil => cases hkeys
    | cons q e =>
      obtain ⟨l,w⟩ := q
      obtain ⟨hkl,htail⟩ := List.cons.inj hkeys
      have hk : k = l := hkl
      subst hk
      obtain ⟨hfresh,hnodup⟩ := List.nodup_cons.mp hd
      have hv : v = w := by
        have hhead := h k List.mem_cons_self
        simpa [get?] using hhead
      have hrest : ∀ x ∈ keys d, get? d x = get? e x := by
        intro x hx
        have hne : k ≠ x := by
          rintro rfl
          exact hfresh hx
        have hall := h x (List.mem_cons_of_mem _ hx)
        simpa only [get?, hne, if_false] using hall
      rw [hv, ih htail hnodup hrest]

/-- Entries with distinct new keys, written one after the other, stand at the end. -/
theorem foldl_set_eq_append {γ : Type} (key : γ → α) (value : γ → β) (items : List γ)
    (d : Dict α β) (h : (keys d ++ items.map key).Nodup) :
    items.foldl (fun acc c => set acc (key c) (value c)) d =
      d ++ items.map fun c => (key c,value c) := by
  induction items generalizing d with
  | nil => simp
  | cons c items ih =>
    have hfresh : key c ∉ keys d := fun hmem =>
      (List.nodup_append.mp h).2.2 (key c) hmem (key c) List.mem_cons_self rfl
    have hnext : (keys (d ++ [(key c,value c)]) ++ items.map key).Nodup := by
      simpa [keys] using h
    rw [List.foldl_cons, set_eq_append hfresh, ih _ hnext, List.map_cons, List.append_assoc,
      List.singleton_append]

/-- Reading the entry of an item from entries with distinct keys. -/
theorem get?_map_of_mem {γ : Type} (key : γ → α) (value : γ → β) {items : List γ}
    (h : (items.map key).Nodup) {c : γ} (hc : c ∈ items) :
    get? (items.map fun c => (key c,value c)) (key c) = some (value c) := by
  have hkeys : (keys (items.map fun c => (key c,value c))).Nodup := by
    simpa [keys, Function.comp_def] using h
  exact (mem_iff_get? hkeys).mp (List.mem_map.mpr ⟨c,hc,rfl⟩)

end Dict

/-- The keys of `dict.fromkeys`. -/
theorem nodup_eraseDups {α : Type} [BEq α] [LawfulBEq α] (l : List α) : l.eraseDups.Nodup := by
  generalize hn : l.length = n
  induction n using Nat.strongRecOn generalizing l with
  | _ n ih =>
    cases l with
    | nil => exact List.nodup_nil
    | cons a l =>
      rw [List.eraseDups_cons]
      apply List.nodup_cons.mpr
      constructor
      · intro ha
        have hfilter := List.mem_filter.mp (List.mem_eraseDups.mp ha)
        simp at hfilter
      · apply ih _ _ _ rfl
        rw [← hn]
        exact Nat.lt_succ_of_le (List.length_filter_le _ _)

end NexusEtl.Library
