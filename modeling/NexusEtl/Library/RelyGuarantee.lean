import NexusEtl.Library.Programs

/-!
# Threads with relations of their own

Each thread of a pool relies on what the others do to the state between its steps, and each of
its steps is a move that it is allowed. Where a move of one thread is among what every other one
relies on, the invariant holds under every schedule and each thread ends as it does alone.
-/

set_option autoImplicit false

namespace NexusEtl.Library.Prog

variable {S E A B : Type} {I : S → Prop} {R G : S → S → Prop}

/-- From `s₀` on, whenever the others went by `R` to a state where the program is scheduled, its
step keeps the invariant and is a move `G`; its end meets `Q`. -/
def Behaves (I : S → Prop) (R G : S → S → Prop) (Q : Except E A → S → Prop) :
    Prog S E A → S → Prop
  | done r, s₀ => ∀ s, R s₀ s → I s → Q r s
  | step change next, s₀ => ∀ s, R s₀ s → I s →
      I (change s) ∧ G s (change s) ∧ Behaves I R G Q (next s) (change s)

section Rules

variable {Q Q' : Except E A → S → Prop}

theorem Behaves.later (htrans : ∀ a b c, R a b → R b c → R a c) {p : Prog S E A} {s₀ s : S}
    (h : Behaves I R G Q p s₀) (hs : R s₀ s) : Behaves I R G Q p s := by
  cases p with
  | done r => exact fun t ht hI => h t (htrans _ _ _ hs ht) hI
  | step change next => exact fun t ht hI => h t (htrans _ _ _ hs ht) hI

/-- A program behaves from where it is if it does from wherever it is scheduled next. -/
theorem Behaves.here (hrefl : ∀ s, R s s) {p : Prog S E A} {s₀ : S}
    (h : ∀ s, R s₀ s → I s → Behaves I R G Q p s) : Behaves I R G Q p s₀ := by
  cases p with
  | done r => exact fun s hs hI => h s hs hI s (hrefl s) hI
  | step change next => exact fun s hs hI => h s hs hI s (hrefl s) hI

theorem Behaves.weaken {p : Prog S E A} {s₀ : S} (h : Behaves I R G Q p s₀)
    (hQ : ∀ r s, I s → Q r s → Q' r s) : Behaves I R G Q' p s₀ := by
  induction p generalizing s₀ with
  | done r => exact fun s hs hI => hQ r s hI (h s hs hI)
  | step change next ih =>
    intro s hs hI
    obtain ⟨hinv,hmove,hnext⟩ := h s hs hI
    exact ⟨hinv,hmove,ih s hnext⟩

theorem Behaves.pure {a : A} {s₀ : S} (h : ∀ s, R s₀ s → I s → Q (.ok a) s) :
    Behaves I R G Q (Pure.pure a) s₀ := h

theorem Behaves.throw {e : E} {s₀ : S} (h : ∀ s, R s₀ s → I s → Q (.error e) s) :
    Behaves I R G Q (MonadExcept.throw e) s₀ := h

theorem Behaves.atomic {f : S → Except E A × S} {s₀ : S}
    (h : ∀ s, R s₀ s → I s → I (f s).2 ∧ G s (f s).2 ∧
      ∀ t, R (f s).2 t → I t → Q (f s).1 t) : Behaves I R G Q (Prog.atomic f) s₀ := h

theorem Behaves.bind {Q' : Except E B → S → Prop} {p : Prog S E A} {f : A → Prog S E B} {s₀ : S}
    (hrefl : ∀ s, R s s) (h : Behaves I R G Q p s₀)
    (hok : ∀ a s, I s → Q (.ok a) s → Behaves I R G Q' (f a) s)
    (herror : ∀ e s, I s → Q (.error e) s → Q' (.error e) s) :
    Behaves I R G Q' (p >>= f) s₀ := by
  show Behaves I R G Q' (Prog.bind p f) s₀
  induction p generalizing s₀ with
  | done r =>
    cases r with
    | ok a => exact Behaves.here hrefl fun s hs hI => hok a s hI (h s hs hI)
    | error e => exact fun s hs hI => herror e s hI (h s hs hI)
  | step change next ih =>
    intro s hs hI
    obtain ⟨hinv,hmove,hnext⟩ := h s hs hI
    exact ⟨hinv,hmove,ih s hnext⟩

theorem Behaves.tryCatch {p : Prog S E A} {f : E → Prog S E A} {s₀ : S} (hrefl : ∀ s, R s s)
    (h : Behaves I R G Q p s₀) (hok : ∀ a s, I s → Q (.ok a) s → Q' (.ok a) s)
    (herror : ∀ e s, I s → Q (.error e) s → Behaves I R G Q' (f e) s) :
    Behaves I R G Q' (tryCatch p f) s₀ := by
  show Behaves I R G Q' (Prog.handle p f) s₀
  induction p generalizing s₀ with
  | done r =>
    cases r with
    | ok a => exact fun s hs hI => hok a s hI (h s hs hI)
    | error e => exact Behaves.here hrefl fun s hs hI => herror e s hI (h s hs hI)
  | step change next ih =>
    intro s hs hI
    obtain ⟨hinv,hmove,hnext⟩ := h s hs hI
    exact ⟨hinv,hmove,ih s hnext⟩

end Rules

/-! ## Pools -/

variable {ι : Type} [DecidableEq ι]

/-- Every thread behaves by its own relations from the present state on. -/
structure Pool.Coordinated (I : S → Prop) (R G : ι → S → S → Prop)
    (Q : ι → Except E A → S → Prop) (pool : Pool ι S E A) : Prop where
  holds : I pool.state
  behaves : ∀ i, Behaves I (R i) (G i) (Q i) (pool.threads i) pool.state

/-- What makes the relations of the threads fit together. -/
structure Compatible (I : S → Prop) (R G : ι → S → S → Prop) : Prop where
  refl : ∀ i s, R i s s
  trans : ∀ i a b c, R i a b → R i b c → R i a c
  moves : ∀ i j s t, i ≠ j → I s → I t → G i s t → R j s t

variable {R G : ι → S → S → Prop} {Q : ι → Except E A → S → Prop}

theorem Pool.Coordinated.advance (hfit : Compatible I R G) {pool : Pool ι S E A}
    (h : pool.Coordinated I R G Q) (i : ι) : (pool.advance i).Coordinated I R G Q := by
  unfold Pool.advance
  cases ht : pool.threads i with
  | done r => exact h
  | step change next =>
    have hstep := h.behaves i
    rw [ht] at hstep
    obtain ⟨hinv,hmove,hnext⟩ := hstep pool.state (hfit.refl i _) h.holds
    refine ⟨hinv,fun j => ?_⟩
    by_cases hj : j = i
    · subst hj
      simpa using hnext
    · have hrely := hfit.moves i j _ _ (Ne.symm hj) h.holds hinv hmove
      have hlater := (h.behaves j).later (hfit.trans j) hrely
      simpa [Function.update_of_ne hj] using hlater

theorem Pool.Coordinated.schedule (hfit : Compatible I R G) {pool : Pool ι S E A}
    (h : pool.Coordinated I R G Q) (order : List ι) :
    (pool.schedule order).Coordinated I R G Q := by
  induction order generalizing pool with
  | nil => exact h
  | cons i order ih => exact ih (h.advance hfit i)

/-- A thread that has ended meets its condition in the state that the others left by then. -/
theorem Pool.Coordinated.ended (hfit : Compatible I R G) {pool : Pool ι S E A}
    (h : pool.Coordinated I R G Q) {i : ι} {r : Except E A} (hr : pool.threads i = .done r) :
    Q i r pool.state := by
  have hend := h.behaves i
  rw [hr] at hend
  exact hend pool.state (hfit.refl i _) h.holds

end NexusEtl.Library.Prog
