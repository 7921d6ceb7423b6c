import Mathlib.Data.List.Basic

/-!
# Lists cut at a separator

A list is cut at each separator. Putting texts in the place of its elements
keeps the pieces apart when the texts have no separator of their own. Lists that
are joined by separators can be told apart unless they are two divisions of the
same pieces.
-/

set_option autoImplicit false

namespace NexusEtl.Library
namespace Segments

variable {α β : Type}

theorem not_mem_of_mem_splitOn [DecidableEq α] {a : α} {xs l : List α}
    (h : l ∈ xs.splitOn a) : a ∉ l := by
  induction xs generalizing l with
  | nil =>
    rw [List.splitOn_nil, List.mem_singleton] at h
    rw [h]
    exact List.not_mem_nil
  | cons x xs ih =>
    rw [List.splitOn_cons_eq_if_modifyHead] at h
    split at h
    · rcases List.mem_cons.mp h with rfl | h
      · exact List.not_mem_nil
      · exact ih h
    · rename_i hx
      obtain ⟨first,rest,hlist⟩ := List.exists_cons_of_ne_nil (List.splitOn_ne_nil a xs)
      rw [hlist, List.modifyHead_cons] at h
      rcases List.mem_cons.mp h with rfl | h
      · rw [List.mem_cons, not_or]
        exact ⟨fun he => hx (beq_iff_eq.mpr he.symm),ih (hlist ▸ List.mem_cons_self)⟩
      · exact ih (hlist ▸ List.mem_cons_of_mem _ h)

/-- The elements of the pieces are those of the list, but for the separators. -/
theorem exists_mem_splitOn_iff [DecidableEq α] {a x : α} {xs : List α} :
    (∃ l ∈ xs.splitOn a, x ∈ l) ↔ x ∈ xs ∧ x ≠ a := by
  constructor
  · rintro ⟨l,hl,hx⟩
    refine ⟨?_,fun he => not_mem_of_mem_splitOn hl (he ▸ hx)⟩
    induction xs generalizing l with
    | nil =>
      rw [List.splitOn_nil, List.mem_singleton] at hl
      exact absurd (hl ▸ hx) List.not_mem_nil
    | cons y xs ih =>
      rw [List.splitOn_cons_eq_if_modifyHead] at hl
      split at hl
      · rcases List.mem_cons.mp hl with rfl | hl
        · exact absurd hx List.not_mem_nil
        · exact List.mem_cons_of_mem _ (ih l hl hx)
      · obtain ⟨first,rest,hlist⟩ := List.exists_cons_of_ne_nil (List.splitOn_ne_nil a xs)
        rw [hlist, List.modifyHead_cons] at hl
        rcases List.mem_cons.mp hl with rfl | hl
        · rcases List.mem_cons.mp hx with rfl | hx
          · exact List.mem_cons_self
          · exact List.mem_cons_of_mem _ (ih first (hlist ▸ List.mem_cons_self) hx)
        · exact List.mem_cons_of_mem _ (ih l (hlist ▸ List.mem_cons_of_mem _ hl) hx)
  · rintro ⟨hx,hne⟩
    induction xs with
    | nil => cases hx
    | cons y xs ih =>
      rw [List.splitOn_cons_eq_if_modifyHead]
      obtain ⟨first,rest,hlist⟩ := List.exists_cons_of_ne_nil (List.splitOn_ne_nil a xs)
      split
      · rename_i hy
        rcases List.mem_cons.mp hx with rfl | hx
        · exact absurd (beq_iff_eq.mp hy) hne
        · obtain ⟨l,hl,hxl⟩ := ih hx
          exact ⟨l,List.mem_cons_of_mem _ hl,hxl⟩
      · rw [hlist, List.modifyHead_cons]
        rcases List.mem_cons.mp hx with rfl | hx
        · exact ⟨_,List.mem_cons_self,List.mem_cons_self⟩
        · obtain ⟨l,hl,hxl⟩ := ih hx
          rw [hlist] at hl
          rcases List.mem_cons.mp hl with rfl | hl
          · exact ⟨_,List.mem_cons_self,List.mem_cons_of_mem _ hxl⟩
          · exact ⟨l,List.mem_cons_of_mem _ hl,hxl⟩

theorem flatMap_intercalate {a : α} {b : β} {f : α → List β} (hf : f a = [b])
    (ls : List (List α)) :
    ([a].intercalate ls).flatMap f = [b].intercalate (ls.map fun l => l.flatMap f) := by
  induction ls with
  | nil => rfl
  | cons l ls ih =>
    cases ls with
    | nil => simp
    | cons l' ls =>
      rw [List.intercalate_cons_cons, List.flatMap_append, List.flatMap_append, ih]
      simp only [List.map_cons, List.intercalate_cons_cons, List.flatMap_singleton, hf]

/-- The pieces of a list with texts in the place of its elements are the pieces of the list
with the texts put in exactly when no text has a separator. -/
theorem splitOn_flatMap_iff [DecidableEq α] [DecidableEq β] {a : α} {b : β} {f : α → List β}
    (hf : f a = [b]) (xs : List α) :
    (xs.flatMap f).splitOn b = (xs.splitOn a).map (fun l => l.flatMap f) ↔
      ∀ x ∈ xs, x ≠ a → b ∉ f x := by
  constructor
  · intro h x hx hne hb
    obtain ⟨l,hl,hxl⟩ := exists_mem_splitOn_iff.mpr ⟨hx,hne⟩
    have hpiece : l.flatMap f ∈ (xs.flatMap f).splitOn b := by
      rw [h]
      exact List.mem_map_of_mem hl
    exact not_mem_of_mem_splitOn hpiece (List.mem_flatMap.mpr ⟨x,hxl,hb⟩)
  · intro h
    have hxs : xs.flatMap f = [b].intercalate ((xs.splitOn a).map fun l => l.flatMap f) := by
      rw [← flatMap_intercalate hf, List.intercalate_splitOn]
    rw [hxs]
    apply List.splitOn_intercalate
    · intro piece hpiece hb
      obtain ⟨l,hl,rfl⟩ := List.mem_map.mp hpiece
      obtain ⟨x,hx,hbx⟩ := List.mem_flatMap.mp hb
      obtain ⟨hmem,hne⟩ := exists_mem_splitOn_iff.mp ⟨l,hl,hx⟩
      exact h x hmem hne hbx
    · exact fun hnil => List.splitOn_ne_nil a xs (List.map_eq_nil_iff.mp hnil)

section Joining

variable {a : α}

theorem intercalate_append {ls ms : List (List α)} (hls : ls ≠ []) (hms : ms ≠ []) :
    [a].intercalate (ls ++ ms) = [a].intercalate ls ++ a::[a].intercalate ms := by
  induction ls with
  | nil => exact absurd rfl hls
  | cons l ls ih =>
    cases ls with
    | nil => simp [List.intercalate_cons_of_ne_nil hms]
    | cons l' ls =>
      have hrest := ih (List.cons_ne_nil _ _)
      rw [List.cons_append] at hrest
      rw [List.cons_append, List.cons_append, List.intercalate_cons_cons, hrest,
        List.intercalate_cons_cons, List.append_assoc, List.append_assoc, List.append_assoc]

/-- Joining the joined groups is joining all that is in them. -/
theorem intercalate_flatten {groups : List (List (List α))} (h : ∀ g ∈ groups, g ≠ []) :
    [a].intercalate (groups.map [a].intercalate) = [a].intercalate groups.flatten := by
  induction groups with
  | nil => rfl
  | cons g groups ih =>
    obtain ⟨hg,hgroups⟩ := List.forall_mem_cons.mp h
    cases groups with
    | nil => simp
    | cons g' groups =>
      have hflatten : (g'::groups).flatten ≠ [] := by
        simp [(List.forall_mem_cons.mp hgroups).1]
      have hrest := ih hgroups
      rw [List.map_cons] at hrest
      rw [List.map_cons, List.map_cons, List.intercalate_cons_cons, hrest,
        show (g::g'::groups).flatten = g ++ (g'::groups).flatten from List.flatten_cons,
        intercalate_append hg hflatten, List.append_assoc, List.singleton_append]

/-- The pieces of one run, divided into groups at different places and joined in each group. -/
def Redivided (a : α) (parts parts' : List (List α)) : Prop :=
  ∃ groups groups' : List (List (List α)), (∀ g ∈ groups, g ≠ []) ∧ (∀ g ∈ groups', g ≠ []) ∧
    groups.flatten = groups'.flatten ∧ groups ≠ groups' ∧
    parts = groups.map [a].intercalate ∧ parts' = groups'.map [a].intercalate

/-- Two divisions of the same pieces that give the same parts are the same division. -/
theorem division_unique {groups groups' : List (List (List α))} (h : ∀ g ∈ groups, g ≠ [])
    (h' : ∀ g ∈ groups', g ≠ []) (hflatten : groups.flatten = groups'.flatten)
    (hparts : groups.map [a].intercalate = groups'.map [a].intercalate) : groups = groups' := by
  induction groups generalizing groups' with
  | nil => exact (List.map_eq_nil_iff.mp hparts.symm).symm
  | cons g groups ih =>
    cases groups' with
    | nil => cases hparts
    | cons g' groups' =>
      obtain ⟨hg,hgroups⟩ := List.forall_mem_cons.mp h
      obtain ⟨hg',hgroups'⟩ := List.forall_mem_cons.mp h'
      obtain ⟨hjoin,hrest⟩ := List.cons.inj hparts
      -- a longer group would have a longer join
      have hlonger : ∀ {g m : List (List α)}, g ≠ [] →
          [a].intercalate (g ++ m) = [a].intercalate g → m = [] := by
        intro g m hg heq
        by_contra hm
        rw [intercalate_append hg hm] at heq
        simp at heq
      have hsame : g = g' := by
        rw [List.flatten_cons, List.flatten_cons] at hflatten
        rcases List.append_eq_append_iff.mp hflatten with ⟨m,hm,_⟩ | ⟨m,hm,_⟩
        · rw [hm, hlonger hg ((congrArg _ hm).symm.trans hjoin.symm), List.append_nil]
        · rw [hm, hlonger hg' ((congrArg _ hm).symm.trans hjoin), List.append_nil]
      subst hsame
      rw [ih hgroups hgroups' (List.append_cancel_left hflatten) hrest]

theorem Redivided.ne {parts parts' : List (List α)} (h : Redivided a parts parts') :
    parts ≠ parts' := by
  obtain ⟨groups,groups',hg,hg',hflatten,hne,rfl,rfl⟩ := h
  exact fun heq => hne (division_unique hg hg' hflatten heq)

/-- As many parts on both sides give one joined list exactly if they are the same parts or two
divisions of the same pieces. -/
theorem intercalate_eq_iff [DecidableEq α] {parts parts' : List (List α)}
    (hlength : parts.length = parts'.length) :
    [a].intercalate parts = [a].intercalate parts' ↔
      parts = parts' ∨ Redivided a parts parts' := by
  constructor
  · intro hjoin
    rw [or_iff_not_imp_left]
    intro hne
    have hback : ∀ l : List (List α), l = (l.map (List.splitOn a)).map [a].intercalate :=
      fun l => by simp [List.map_map, Function.comp_def, List.intercalate_splitOn]
    have hgroups : ∀ l : List (List α), ∀ g ∈ l.map (List.splitOn a), g ≠ [] := by
      intro l g hg
      obtain ⟨part,_,rfl⟩ := List.mem_map.mp hg
      exact List.splitOn_ne_nil a part
    have hpieces : ∀ l : List (List α), l ≠ [] →
        ([a].intercalate l).splitOn a = (l.map (List.splitOn a)).flatten := by
      intro l hl
      have hjoined := intercalate_flatten (a := a) (hgroups l)
      rw [← hback l] at hjoined
      rw [hjoined]
      apply List.splitOn_intercalate
      · intro piece hpiece
        obtain ⟨g,hg,hpiece⟩ := List.mem_flatten.mp hpiece
        obtain ⟨part,_,rfl⟩ := List.mem_map.mp hg
        exact not_mem_of_mem_splitOn hpiece
      · obtain ⟨part,rest,rfl⟩ := List.exists_cons_of_ne_nil hl
        simp [List.splitOn_ne_nil]
    have hparts : parts ≠ [] := by
      rintro rfl
      exact hne (List.length_eq_zero_iff.mp hlength.symm).symm
    have hparts' : parts' ≠ [] := by
      rintro rfl
      exact hne (List.length_eq_zero_iff.mp hlength)
    refine ⟨_,_,hgroups parts,hgroups parts',?_,fun heq => hne ?_,hback parts,hback parts'⟩
    · rw [← hpieces parts hparts, ← hpieces parts' hparts', hjoin]
    · rw [hback parts, heq, ← hback parts']
  · rintro (rfl | ⟨groups,groups',hg,hg',hflatten,_,rfl,rfl⟩)
    · rfl
    · rw [intercalate_flatten hg, intercalate_flatten hg', hflatten]

end Joining

/-! ## Texts after separators -/

/-- The texts of a list, each after a separator. -/
def separated (sep : α) (f : β → List α) (ks : List β) : List α := ks.flatMap fun k => sep::f k

theorem separated_cons (sep : α) (f : β → List α) (k : β) (ks : List β) :
    separated sep f (k::ks) = sep::(f k ++ separated sep f ks) := rfl

/-- Two lists without separators are told apart by what stands before the first separator. -/
theorem append_separated_inj {sep : α} {f : β → List α} {a a' : List α} {ks ks' : List β}
    (ha : sep ∉ a) (ha' : sep ∉ a') (h : a ++ separated sep f ks = a' ++ separated sep f ks') :
    a = a' ∧ separated sep f ks = separated sep f ks' := by
  induction a generalizing a' with
  | nil =>
    cases a' with
    | nil => exact ⟨rfl,h⟩
    | cons x a' =>
      cases ks with
      | nil => cases h
      | cons k ks =>
        rw [separated_cons] at h
        exact absurd ((List.cons.inj h).1 ▸ List.mem_cons_self) ha'
  | cons x a ih =>
    cases a' with
    | nil =>
      cases ks' with
      | nil => cases h
      | cons k ks' =>
        rw [separated_cons] at h
        exact absurd ((List.cons.inj h).1 ▸ List.mem_cons_self) ha
    | cons x' a' =>
      obtain ⟨rfl,hrest⟩ := List.cons.inj h
      obtain ⟨rfl,heq⟩ := ih (fun hx => ha (.tail _ hx)) (fun hx => ha' (.tail _ hx)) hrest
      exact ⟨rfl,heq⟩

/-- Where a joined list begins with pieces without separators, they are the first pieces of every
list of such pieces that is joined to it. -/
theorem prefix_of_separated {sep : α} {f : β → List α} (hf : Function.Injective f)
    {a a' : List α} {ks s ks' : List β} (ha : sep ∉ a) (ha' : sep ∉ a')
    (hks : ∀ k ∈ ks, sep ∉ f k) (hks' : ∀ k ∈ ks', sep ∉ f k)
    (h : a ++ separated sep f (ks ++ s) = a' ++ separated sep f ks') :
    a = a' ∧ ks <+: ks' ∧ (ks = ks' → s = []) := by
  obtain ⟨rfl,hrest⟩ := append_separated_inj ha ha' h
  refine ⟨rfl,?_⟩
  clear h ha ha'
  induction ks generalizing ks' with
  | nil =>
    refine ⟨List.nil_prefix,fun hnil => ?_⟩
    cases s with
    | nil => rfl
    | cons k s =>
      subst hnil
      cases hrest
  | cons k ks ih =>
    cases ks' with
    | nil => cases hrest
    | cons k' ks' =>
      rw [List.cons_append, separated_cons, separated_cons] at hrest
      replace hrest := (List.cons.inj hrest).2
      obtain ⟨hfk,htail⟩ := append_separated_inj (hks k List.mem_cons_self)
        (hks' k' List.mem_cons_self) hrest
      obtain ⟨hpre,hnil⟩ := ih (fun x hx => hks x (.tail _ hx)) (fun x hx => hks' x (.tail _ hx))
        htail
      obtain rfl := hf hfk
      exact ⟨List.cons_prefix_cons.mpr ⟨rfl,hpre⟩,fun heq => hnil (List.cons.inj heq).2⟩

end Segments
end NexusEtl.Library
