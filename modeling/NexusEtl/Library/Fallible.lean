import Mathlib.Data.List.Forall2

/-!
# Computations that may fail

A step of a computation in `Except` succeeds with its parts; a loop succeeds
when every turn of it does.
-/

set_option autoImplicit false

namespace NexusEtl.Library

variable {α β γ δ ε ζ : Type}

theorem bind_ok_iff {x : Except ε α} {f : α → Except ε β} {b : β} :
    x >>= f = .ok b ↔ ∃ a, x = .ok a ∧ f a = .ok b := by
  cases x with
  | error e => simp [bind, Except.bind]
  | ok a => simp [bind, Except.bind]

/-- An exception comes out of one of the two parts. -/
theorem bind_error {x : Except ε α} {f : α → Except ε β} {e : ε} (h : x >>= f = .error e) :
    x = .error e ∨ ∃ a, f a = .error e := by
  cases x with
  | error e' =>
    have heq : (.error e' : Except ε β) = .error e := h
    exact .inl (congrArg _ (Except.error.inj heq))
  | ok a => exact .inr ⟨a,h⟩

theorem mapM_ok_iff {f : α → Except ε β} {l : List α} {v : List β} :
    l.mapM f = .ok v ↔ List.Forall₂ (fun a b => f a = .ok b) l v := by
  induction l generalizing v with
  | nil => cases v <;> simp [pure, Except.pure]
  | cons a l ih =>
    rw [List.mapM_cons]
    cases ha : f a with
    | error e => cases v <;> simp [ha, bind, Except.bind]
    | ok b =>
      cases hl : l.mapM f with
      | error e => cases v <;> simp [ha, hl, ← ih, bind, Except.bind]
      | ok bs => cases v <;> simp [ha, hl, ← ih, bind, Except.bind, pure, Except.pure]

theorem mapM_ok_map {f : α → Except ε β} {g : γ → Except ζ δ} {i : α → γ} {j : β → δ}
    {l : List α} {v : List β} (h : ∀ a ∈ l, ∀ b, f a = .ok b → g (i a) = .ok (j b))
    (hv : l.mapM f = .ok v) : (l.map i).mapM g = .ok (v.map j) := by
  rw [mapM_ok_iff] at hv ⊢
  induction hv with
  | nil => exact .nil
  | cons hab _ ih =>
    exact .cons (h _ List.mem_cons_self _ hab) (ih fun x hx => h x (List.mem_cons_of_mem _ hx))

/-- A loop whose turns all succeed. -/
theorem mapM_eq_map {f : α → Except ε β} {g : α → β} {l : List α} (h : ∀ a ∈ l, f a = .ok (g a)) :
    l.mapM f = .ok (l.map g) :=
  mapM_ok_iff.mpr (List.forall₂_map_right_iff.mpr (List.forall₂_same.mpr h))

theorem filterAuxM_ok_iff {f : α → Except ε Bool} {l acc r : List α} :
    List.filterAuxM f l acc = .ok r ↔
      ∃ p : α → Bool, (∀ a ∈ l, f a = .ok (p a)) ∧ r = (l.filter p).reverse ++ acc := by
  induction l generalizing acc with
  | nil => simp [List.filterAuxM, pure, Except.pure, eq_comm]
  | cons a l ih =>
    rw [List.filterAuxM, bind_ok_iff]
    constructor
    · rintro ⟨b,hb,hrest⟩
      obtain ⟨p,hp,rfl⟩ := ih.mp hrest
      classical
      refine ⟨fun x => if x = a then b else p x,?_,?_⟩
      · intro x hx
        by_cases hxa : x = a
        · simpa [hxa] using hb
        · simpa [hxa] using hp x ((List.mem_cons.mp hx).resolve_left hxa)
      · have hsame : l.filter (fun x => if x = a then b else p x) = l.filter p := by
          apply List.filter_congr
          intro x hx
          by_cases hxa : x = a
          · have hpx := hp x hx
            rw [hxa, hb] at hpx
            simpa [hxa] using Except.ok.inj hpx
          · simp [hxa]
        rw [List.filter_cons, hsame]
        cases b <;> simp
    · rintro ⟨p,hp,rfl⟩
      refine ⟨p a,hp a List.mem_cons_self,
        ih.mpr ⟨p,fun x hx => hp x (List.mem_cons_of_mem _ hx),?_⟩⟩
      rw [List.filter_cons]
      cases p a <;> simp

/-- A filter whose test may fail. -/
theorem filterM_ok_iff {f : α → Except ε Bool} {l r : List α} :
    l.filterM f = .ok r ↔ ∃ p : α → Bool, (∀ a ∈ l, f a = .ok (p a)) ∧ r = l.filter p := by
  rw [List.filterM, bind_ok_iff]
  constructor
  · rintro ⟨acc,hacc,hr⟩
    obtain ⟨p,hp,rfl⟩ := filterAuxM_ok_iff.mp hacc
    obtain rfl := Except.ok.inj hr
    exact ⟨p,hp,by simp⟩
  · rintro ⟨p,hp,rfl⟩
    exact ⟨_,filterAuxM_ok_iff.mpr ⟨p,hp,rfl⟩,by simp [pure, Except.pure]⟩

/-- A loop that only checks succeeds when every item passes. -/
theorem forM_ok_iff {f : α → Except ε Unit} {l : List α} :
    l.forM f = .ok () ↔ ∀ a ∈ l, f a = .ok () := by
  induction l with
  | nil => simp [pure, Except.pure]
  | cons a l ih =>
    rw [List.forM_eq_forM] at ih ⊢
    rw [List.forM_cons, bind_ok_iff, List.forall_mem_cons, ← ih]
    constructor
    · rintro ⟨⟨⟩,ha,hl⟩
      exact ⟨ha,hl⟩
    · intro h
      exact ⟨(),h⟩

theorem forall₂_exists_right {R : α → β → Prop} {l : List α} {m : List β}
    (h : List.Forall₂ R l m) : ∀ a ∈ l, ∃ b ∈ m, R a b := by
  induction h with
  | nil =>
    intro a ha
    cases ha
  | cons hab _ ih =>
    intro a ha
    rcases List.mem_cons.mp ha with rfl | ha
    · exact ⟨_,List.mem_cons_self,hab⟩
    · obtain ⟨b,hb,hr⟩ := ih a ha
      exact ⟨b,List.mem_cons_of_mem _ hb,hr⟩

theorem forall₂_trans {R : α → β → Prop} {S : β → γ → Prop} {T : α → γ → Prop}
    (h : ∀ a b c, R a b → S b c → T a c) {l : List α} {m : List β} {n : List γ}
    (hlm : List.Forall₂ R l m) (hmn : List.Forall₂ S m n) : List.Forall₂ T l n := by
  induction hlm generalizing n with
  | nil =>
    cases hmn
    exact .nil
  | cons hab _ ih =>
    cases hmn with
    | cons hbc hrest => exact .cons (h _ _ _ hab hbc) (ih hrest)

/-- Items that are all related to something are related to a list. -/
theorem exists_forall₂ {R : α → β → Prop} {l : List α} (h : ∀ a ∈ l, ∃ b, R a b) :
    ∃ bs, List.Forall₂ R l bs := by
  induction l with
  | nil => exact ⟨[],.nil⟩
  | cons a l ih =>
    obtain ⟨b,hb⟩ := h a List.mem_cons_self
    obtain ⟨bs,hbs⟩ := ih fun x hx => h x (List.mem_cons_of_mem _ hx)
    exact ⟨b::bs,.cons hb hbs⟩

end NexusEtl.Library
