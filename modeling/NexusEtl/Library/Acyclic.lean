import Mathlib.Order.WellFoundedSet

/-!
# Finite acyclic relations

A relation without cycles on finitely many elements can be followed only
finitely often, forwards and backwards. Removing, round after round, the
elements that nothing left stands before decides whether there is a cycle.
-/

set_option autoImplicit false

namespace NexusEtl.Library

variable {α : Type} {r : α → α → Prop}

def Acyclic (r : α → α → Prop) : Prop := ∀ a, ¬Relation.TransGen r a a

theorem Acyclic.flip (h : Acyclic r) : Acyclic fun a b => r b a := by
  intro a hcycle
  exact h a (Relation.transGen_swap.mp hcycle)

theorem Acyclic.wellFounded (h : Acyclic r) {s : Set α} (hs : s.Finite)
    (hr : ∀ a b, r a b → a ∈ s ∧ b ∈ s) : WellFounded r := by
  have : IsStrictOrder α (Relation.TransGen r) :=
    { irrefl := h, trans := fun _ _ _ => Relation.TransGen.trans }
  have hwf := Set.wellFoundedOn_iff.mp (hs.wellFoundedOn (r := Relation.TransGen r))
  apply Subrelation.wf _ hwf
  intro a b hab
  exact ⟨.single hab,hr a b hab⟩

theorem Acyclic.of_wellFounded (h : WellFounded r) : Acyclic r := by
  intro a hcycle
  exact h.transGen.asymmetric a a hcycle hcycle

/-- A new element that nothing leads to closes no cycle. -/
theorem Acyclic.of_leaf {r' : α → α → Prop} (h : Acyclic r) {leaf : α}
    (hstep : ∀ a b, r' a b → a ≠ leaf → r a b) (hleaf : ∀ a, ¬r' a leaf) : Acyclic r' := by
  have hold : ∀ a b, Relation.TransGen r' a b → a ≠ leaf → Relation.TransGen r a b := by
    intro a b hpath ha
    induction hpath with
    | single hab => exact .single (hstep _ _ hab ha)
    | @tail b c hpath hbc ih =>
      obtain ⟨d,_,hdb⟩ := Relation.TransGen.tail'_iff.mp hpath
      exact ih.tail (hstep b c hbc fun heq => hleaf d (heq ▸ hdb))
  intro a hcycle
  obtain ⟨b,_,hba⟩ := Relation.TransGen.tail'_iff.mp hcycle
  exact h a (hold a a hcycle fun heq => hleaf b (heq ▸ hba))

section Peeling

variable [DecidableEq α] (preds : α → List α)

def survivors (left : List α) : List α :=
  left.filter fun a => (preds a).any fun b => left.contains b

def leftOver : Nat → List α → List α
  | 0, left => left
  | n+1, left => leftOver n (survivors preds left)

variable {preds}

theorem mem_survivors {left : List α} {a : α} :
    a ∈ survivors preds left ↔ a ∈ left ∧ ∃ b ∈ preds a, b ∈ left := by
  simp [survivors]

/-- A set of elements with a predecessor each in the set is never removed. -/
theorem subset_leftOver {s : Set α} (hs : ∀ a ∈ s, ∃ b ∈ preds a, b ∈ s) (n : Nat) {left : List α}
    (h : ∀ a ∈ s, a ∈ left) : ∀ a ∈ s, a ∈ leftOver preds n left := by
  induction n generalizing left with
  | zero => exact h
  | succ n ih =>
    apply ih
    intro a ha
    obtain ⟨b,hb,hbs⟩ := hs a ha
    exact mem_survivors.mpr ⟨h a ha,b,hb,h b hbs⟩

theorem length_survivors_lt (h : Acyclic fun a b => b ∈ preds a) {left : List α}
    (hne : left ≠ []) : (survivors preds left).length < left.length := by
  have hinner : Acyclic fun b a => b ∈ preds a ∧ a ∈ left ∧ b ∈ left := by
    intro a hcycle
    exact h.flip a (Relation.TransGen.mono (fun _ _ hab => hab.1) a a hcycle)
  have hwf := hinner.wellFounded (List.finite_toSet left) fun _ _ hab => ⟨hab.2.2,hab.2.1⟩
  obtain ⟨a,ha,hmin⟩ := hwf.has_min {a | a ∈ left} (List.exists_mem_of_ne_nil left hne)
  apply List.length_filter_lt_length_iff_exists.mpr
  refine ⟨a,ha,?_⟩
  simp only [List.any_eq_true, List.contains_iff_mem, not_exists, not_and]
  intro b hb hleft
  exact hmin b hleft ⟨hb,ha,hleft⟩

theorem length_leftOver_le (h : Acyclic fun a b => b ∈ preds a) (n : Nat) (left : List α) :
    (leftOver preds n left).length ≤ left.length - n := by
  induction n generalizing left with
  | zero => exact Nat.le_refl _
  | succ n ih =>
    have hrest := ih (survivors preds left)
    by_cases hne : left = []
    · simp only [leftOver]
      simp only [hne, survivors, List.filter_nil, List.length_nil, Nat.zero_sub] at hrest ⊢
      exact hrest
    · have hlt := length_survivors_lt h hne
      show (leftOver preds n (survivors preds left)).length ≤ left.length - (n + 1)
      omega

/-- Nothing is left exactly when there is no cycle. -/
theorem leftOver_eq_nil_iff {nodes : List α} (hnodes : ∀ a, ∀ b ∈ preds a, a ∈ nodes) :
    leftOver preds nodes.length nodes = [] ↔ Acyclic fun a b => b ∈ preds a := by
  constructor
  · intro hnil a hcycle
    let cycle : Set α := {x | Relation.TransGen (fun a b => b ∈ preds a) a x ∧
      Relation.TransGen (fun a b => b ∈ preds a) x a}
    have hnext : ∀ x ∈ cycle, ∃ y ∈ preds x, y ∈ cycle := by
      intro x hx
      rcases Relation.TransGen.head'_iff.mp hx.2 with ⟨y,hxy,hya⟩
      refine ⟨y,hxy,hx.1.tail hxy,?_⟩
      rcases Relation.reflTransGen_iff_eq_or_transGen.mp hya with heq | htrans
      · exact heq ▸ hcycle
      · exact htrans
    have hsub : ∀ x ∈ cycle, x ∈ nodes := by
      intro x hx
      obtain ⟨y,hy,_⟩ := hnext x hx
      exact hnodes x y hy
    have hleft := subset_leftOver hnext nodes.length hsub a ⟨hcycle,hcycle⟩
    rw [hnil] at hleft
    cases hleft
  · intro h
    have hlen := length_leftOver_le h nodes.length nodes
    rw [Nat.sub_self] at hlen
    exact List.length_eq_zero_iff.mp (Nat.le_zero.mp hlen)

end Peeling

end NexusEtl.Library
