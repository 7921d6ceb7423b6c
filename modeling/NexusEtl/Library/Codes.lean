/-!
# Self-delimiting codes

A code is self-delimiting when the reader of a stream knows where the word of a
value ends. Lists of such words that end with a stop symbol, with or without a
separator between the words, are self-delimiting again.
-/

set_option autoImplicit false

namespace NexusEtl.Library

variable {α β : Type}

def SelfDelimiting (enc : α → List β) : Prop :=
  ∀ a b r s, enc a ++ r = enc b ++ s → a = b ∧ r = s

/-- Every word of the code begins, and not with the given symbol. -/
def StartsOtherThan (enc : α → List β) (c : β) : Prop := ∀ a, ∃ d rest, enc a = d::rest ∧ d ≠ c

def terminated (stop : β) (enc : α → List β) (l : List α) : List β := l.flatMap enc ++ [stop]

def separated (sep stop : β) (enc : α → List β) : List α → List β
  | [] => [stop]
  | a::l => enc a ++ terminated stop (fun b => sep::enc b) l

variable {enc : α → List β}

theorem SelfDelimiting.injective (h : SelfDelimiting enc) {a b : α} (heq : enc a = enc b) :
    a = b := (h a b [] [] (by rw [heq])).1

theorem SelfDelimiting.cons (h : SelfDelimiting enc) (c : β) :
    SelfDelimiting fun a => c::enc a := by
  intro a b r s heq
  exact h a b r s (List.cons.inj heq).2

theorem SelfDelimiting.terminated (h : SelfDelimiting enc) {stop : β}
    (hstop : StartsOtherThan enc stop) : SelfDelimiting (terminated stop enc) := by
  intro l
  induction l with
  | nil =>
    intro m r s heq
    cases m with
    | nil => exact ⟨rfl,(List.cons.inj heq).2⟩
    | cons b m =>
      obtain ⟨d,rest,hb,hne⟩ := hstop b
      simp only [Library.terminated, List.flatMap_nil, List.flatMap_cons, hb, List.nil_append,
        List.cons_append] at heq
      exact absurd (List.cons.inj heq).1.symm hne
  | cons a l ih =>
    intro m r s heq
    cases m with
    | nil =>
      obtain ⟨d,rest,ha,hne⟩ := hstop a
      simp only [Library.terminated, List.flatMap_nil, List.flatMap_cons, ha, List.nil_append,
        List.cons_append] at heq
      exact absurd (List.cons.inj heq).1 hne
    | cons b m =>
      simp only [Library.terminated, List.flatMap_cons, List.append_assoc] at heq
      obtain ⟨rfl,htail⟩ := h a b _ _ heq
      obtain ⟨rfl,hrest⟩ := ih m r s (by simpa [Library.terminated, List.append_assoc] using htail)
      exact ⟨rfl,hrest⟩

theorem SelfDelimiting.separated (h : SelfDelimiting enc) {sep stop : β} (hne : sep ≠ stop)
    (hstop : StartsOtherThan enc stop) : SelfDelimiting (separated sep stop enc) := by
  have htail : SelfDelimiting (Library.terminated stop fun b => sep::enc b) :=
    (h.cons sep).terminated fun b => ⟨sep,enc b,rfl,hne⟩
  intro l m r s heq
  cases l with
  | nil =>
    cases m with
    | nil => exact ⟨rfl,(List.cons.inj heq).2⟩
    | cons b m =>
      obtain ⟨d,rest,hb,hd⟩ := hstop b
      simp only [Library.separated, hb, List.cons_append] at heq
      exact absurd (List.cons.inj heq).1.symm hd
  | cons a l =>
    cases m with
    | nil =>
      obtain ⟨d,rest,ha,hd⟩ := hstop a
      simp only [Library.separated, ha, List.cons_append] at heq
      exact absurd (List.cons.inj heq).1 hd
    | cons b m =>
      simp only [Library.separated, List.append_assoc] at heq
      obtain ⟨rfl,hrest⟩ := h a b _ _ heq
      obtain ⟨rfl,hend⟩ := htail l m r s hrest
      exact ⟨rfl,hend⟩

/-- A rest that does not go on with the token. -/
def Ends (inToken : β → Bool) (r : List β) : Prop := ∀ c rest, r = c::rest → inToken c = false

/-- A stream is cut into a token and a rest in one way. -/
theorem token_unique {inToken : β → Bool} {t u r s : List β} (ht : ∀ c ∈ t, inToken c = true)
    (hu : ∀ c ∈ u, inToken c = true) (hr : Ends inToken r) (hs : Ends inToken s)
    (h : t ++ r = u ++ s) : t = u ∧ r = s := by
  induction t generalizing u with
  | nil =>
    cases u with
    | nil => exact ⟨rfl,h⟩
    | cons d u =>
      have hd := hr d (u ++ s) h
      rw [hu d List.mem_cons_self] at hd
      cases hd
  | cons c t ih =>
    cases u with
    | nil =>
      have hc := hs c (t ++ r) h.symm
      rw [ht c List.mem_cons_self] at hc
      cases hc
    | cons d u =>
      obtain ⟨heq,hrest⟩ := List.cons.inj h
      obtain ⟨htu,hrs⟩ := ih (fun c hc => ht c (List.mem_cons_of_mem _ hc))
        (fun c hc => hu c (List.mem_cons_of_mem _ hc)) hrest
      exact ⟨by rw [heq, htu],hrs⟩

end NexusEtl.Library
