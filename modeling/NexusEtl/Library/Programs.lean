import Mathlib.Logic.Function.Basic

/-!
# Programs of atomic steps

A program over a shared state makes one atomic step after another and ends with
a result or an error; what follows a step may depend on the state that the step
met. Alone a program runs to its end. Several programs interleave: each is shown
to keep an invariant and a relation between the states that it steps from and to,
as long as the steps of the others keep them too, and then every schedule does.
-/

set_option autoImplicit false

namespace NexusEtl.Library

/-- `next` is told the state before the step. -/
inductive Prog (S E A : Type) : Type
  | done (result : Except E A)
  | step (change : S → S) (next : S → Prog S E A)

namespace Prog

variable {S E A B : Type}

def bind (p : Prog S E A) (f : A → Prog S E B) : Prog S E B :=
  match p with
  | done (.ok a) => f a
  | done (.error e) => done (.error e)
  | step change next => step change fun s => bind (next s) f

def handle (p : Prog S E A) (f : E → Prog S E A) : Prog S E A :=
  match p with
  | done (.ok a) => done (.ok a)
  | done (.error e) => f e
  | step change next => step change fun s => handle (next s) f

def atomic (f : S → Except E A × S) : Prog S E A :=
  step (fun s => (f s).2) fun s => done (f s).1

instance : Monad (Prog S E) where
  pure a := done (.ok a)
  bind := bind

instance : MonadExceptOf E (Prog S E) where
  throw e := done (.error e)
  tryCatch := handle

def ofExcept (r : Except E A) : Prog S E A := done r

def run : Prog S E A → S → Except E A × S
  | done r, s => (r,s)
  | step change next, s => run (next s) (change s)

theorem bind_assoc {C : Type} (p : Prog S E A) (f : A → Prog S E B) (g : B → Prog S E C) :
    p >>= f >>= g = p >>= fun a => f a >>= g := by
  show bind (bind p f) g = bind p fun a => bind (f a) g
  induction p with
  | done r => cases r <;> rfl
  | step change next ih =>
    simp only [bind]
    exact congrArg (step change) (funext ih)

/-- What a run makes of the result of its first part. -/
def andThen (r : Except E A × S) (f : A → S → Except E B × S) : Except E B × S :=
  match r with
  | (.ok a,s) => f a s
  | (.error e,s) => (.error e,s)

@[simp] theorem run_pure (a : A) (s : S) : run (pure a : Prog S E A) s = (.ok a,s) := rfl

@[simp] theorem run_throw (e : E) (s : S) : run (throw e : Prog S E A) s = (.error e,s) := rfl

@[simp] theorem run_ofExcept (r : Except E A) (s : S) : run (ofExcept r) s = (r,s) := rfl

@[simp] theorem run_atomic (f : S → Except E A × S) (s : S) : run (atomic f) s = f s := rfl

@[simp] theorem run_bind (p : Prog S E A) (f : A → Prog S E B) (s : S) :
    run (p >>= f) s = andThen (run p s) fun a s => run (f a) s := by
  show run (bind p f) s = _
  induction p generalizing s with
  | done r => cases r <;> rfl
  | step change next ih => exact ih s (change s)

@[simp] theorem run_tryCatch (p : Prog S E A) (f : E → Prog S E A) (s : S) :
    run (tryCatch p f) s = match run p s with
      | (.ok a,s) => (.ok a,s)
      | (.error e,s) => run (f e) s := by
  show run (handle p f) s = _
  induction p generalizing s with
  | done r => cases r <;> rfl
  | step change next ih => exact ih s (change s)

@[simp] theorem andThen_ok (a : A) (s : S) (f : A → S → Except E B × S) :
    andThen (.ok a,s) f = f a s := rfl

@[simp] theorem andThen_error (e : E) (s : S) (f : A → S → Except E B × S) :
    andThen (.error e,s) f = (.error e,s) := rfl

/-- The number of atomic steps of a run. -/
def steps : Prog S E A → S → Nat
  | done _, _ => 0
  | step change next, s => steps (next s) (change s) + 1

@[simp] theorem steps_pure (a : A) (s : S) : steps (pure a : Prog S E A) s = 0 := rfl

@[simp] theorem steps_ofExcept (r : Except E A) (s : S) : steps (ofExcept r) s = 0 := rfl

@[simp] theorem steps_atomic (f : S → Except E A × S) (s : S) : steps (atomic f) s = 1 := rfl

/-- A sequence makes the steps of its first part and, where that ends with a result, those of
its second. -/
theorem steps_bind (p : Prog S E A) (f : A → Prog S E B) (s : S) :
    steps (p >>= f) s = steps p s + match run p s with
      | (.ok a,s') => steps (f a) s'
      | (.error _,_) => 0 := by
  show steps (bind p f) s = _
  induction p generalizing s with
  | done r => cases r <;> simp [bind, steps, run]
  | step change next ih =>
    simp only [bind, steps, run, ih s (change s)]
    omega

/-- The second part bounds what it adds, whatever the first part gives it. -/
theorem steps_bind_le {p : Prog S E A} {f : A → Prog S E B} {s : S} {m n : Nat}
    (hp : steps p s ≤ m) (hf : ∀ a s', steps (f a) s' ≤ n) : steps (p >>= f) s ≤ m + n := by
  rw [steps_bind]
  split
  · exact Nat.add_le_add hp (hf _ _)
  · omega

theorem steps_ofExcept_bind_le {r : Except E A} {f : A → Prog S E B} {s : S} {n : Nat}
    (hf : ∀ a, steps (f a) s ≤ n) : steps (ofExcept r >>= f) s ≤ n := by
  rw [steps_bind, steps_ofExcept, Nat.zero_add, run_ofExcept]
  cases r with
  | error e => exact Nat.zero_le n
  | ok a => exact hf a

section Ends

/-- The program, run alone from the state, ends with a result and a state that meet `Q`. -/
def Ends (Q : Except E A → S → Prop) (p : Prog S E A) (s : S) : Prop :=
  Q (p.run s).1 (p.run s).2

variable {Q Q' : Except E A → S → Prop}

theorem Ends.mono {p : Prog S E A} {s : S} (h : Ends Q p s) (hQ : ∀ r s, Q r s → Q' r s) :
    Ends Q' p s := hQ _ _ h

theorem Ends.of_run {p : Prog S E A} {s s' : S} {r : Except E A} (h : Ends Q p s)
    (hr : p.run s = (r,s')) : Q r s' := by
  rw [Ends, hr] at h
  exact h

theorem Ends.pure {a : A} {s : S} (h : Q (.ok a) s) : Ends Q (pure a) s := h

theorem Ends.throw {e : E} {s : S} (h : Q (.error e) s) : Ends Q (throw e) s := h

theorem Ends.ofExcept {r : Except E A} {s : S} (h : Q r s) : Ends Q (ofExcept r) s := h

theorem Ends.atomic {f : S → Except E A × S} {s : S} (h : Q (f s).1 (f s).2) :
    Ends Q (atomic f) s := h

theorem Ends.bind {Q : Except E B → S → Prop} {p : Prog S E A} {f : A → Prog S E B} {s : S}
    (h : Ends (fun r s => match r with
      | .ok a => Ends Q (f a) s
      | .error e => Q (.error e) s) p s) : Ends Q (p >>= f) s := by
  rw [Ends, run_bind]
  unfold Ends at h
  rcases hr : p.run s with ⟨_ | a,s'⟩ <;> rw [hr] at h <;> exact h

theorem Ends.tryCatch {p : Prog S E A} {f : E → Prog S E A} {s : S}
    (h : Ends (fun r s => match r with
      | .ok a => Q (.ok a) s
      | .error e => Ends Q (f e) s) p s) : Ends Q (tryCatch p f) s := by
  rw [Ends, run_tryCatch]
  unfold Ends at h
  rcases hr : p.run s with ⟨_ | a,s'⟩ <;> rw [hr] at h <;> exact h

end Ends

section Interleaving

variable {I : S → Prop} {R : S → S → Prop}

/-- From `s₀` on, whenever the program is scheduled in a state that the others reached from
its last one by the relation, it keeps the invariant and the relation; its end meets `Q`. -/
def Keeps (I : S → Prop) (R : S → S → Prop) (Q : Except E A → S → Prop) :
    Prog S E A → S → Prop
  | done r, s₀ => ∀ s, R s₀ s → I s → Q r s
  | step change next, s₀ => ∀ s, R s₀ s → I s →
      I (change s) ∧ R s (change s) ∧ Keeps I R Q (next s) (change s)

variable {Q Q' : Except E A → S → Prop}

theorem Keeps.later (htrans : ∀ a b c, R a b → R b c → R a c) {p : Prog S E A} {s₀ s : S}
    (h : Keeps I R Q p s₀) (hs : R s₀ s) : Keeps I R Q p s := by
  cases p with
  | done r => exact fun t ht hI => h t (htrans _ _ _ hs ht) hI
  | step change next => exact fun t ht hI => h t (htrans _ _ _ hs ht) hI

theorem Keeps.weaken {p : Prog S E A} {s₀ : S} (h : Keeps I R Q p s₀)
    (hQ : ∀ r s, I s → Q r s → Q' r s) : Keeps I R Q' p s₀ := by
  induction p generalizing s₀ with
  | done r => exact fun s hs hI => hQ r s hI (h s hs hI)
  | step change next ih =>
    intro s hs hI
    obtain ⟨hinv,hrel,hnext⟩ := h s hs hI
    exact ⟨hinv,hrel,ih s hnext⟩

/-- An end that holds of the state where the program is, and of all later ones. -/
theorem Keeps.done {r : Except E A} {s₀ : S} (h : ∀ s, R s₀ s → I s → Q r s) :
    Keeps I R Q (.done r) s₀ := h

theorem Keeps.atomic {f : S → Except E A × S} {s₀ : S}
    (h : ∀ s, R s₀ s → I s → I (f s).2 ∧ R s (f s).2 ∧
      ∀ t, R (f s).2 t → I t → Q (f s).1 t) : Keeps I R Q (atomic f) s₀ := h

/-- A sequence: the rest goes on from wherever the first part ended well. -/
theorem Keeps.bind {Q' : Except E B → S → Prop} {p : Prog S E A} {f : A → Prog S E B} {s₀ : S}
    (hrefl : ∀ s, R s s)
    (h : Keeps I R (fun r s => match r with
      | .ok a => Keeps I R Q' (f a) s
      | .error e => Q' (.error e) s) p s₀) :
    Keeps I R Q' (p >>= f) s₀ := by
  show Keeps I R Q' (Prog.bind p f) s₀
  induction p generalizing s₀ with
  | done r =>
    cases r with
    | ok a =>
      show Keeps I R Q' (f a) s₀
      cases hf : f a with
      | done r =>
        intro s hs hI
        have hhere := h s hs hI
        simp only [hf] at hhere
        exact hhere s (hrefl s) hI
      | step change next =>
        intro s hs hI
        have hhere := h s hs hI
        simp only [hf] at hhere
        exact hhere s (hrefl s) hI
    | error e => exact h
  | step change next ih =>
    intro s hs hI
    obtain ⟨hinv,hrel,hnext⟩ := h s hs hI
    exact ⟨hinv,hrel,ih s hnext⟩

/-- A handler that only renames the error. -/
theorem Keeps.rethrow {f : E → E} {p : Prog S E A} {s₀ : S}
    (h : Keeps I R (fun r s => Q (r.mapError f) s) p s₀) :
    Keeps I R Q (tryCatch p fun e => throw (f e)) s₀ := by
  show Keeps I R Q (Prog.handle p fun e => throw (f e)) s₀
  induction p generalizing s₀ with
  | done r =>
    cases r with
    | ok a => exact h
    | error e => exact h
  | step change next ih =>
    intro s hs hI
    obtain ⟨hinv,hrel,hnext⟩ := h s hs hI
    exact ⟨hinv,hrel,ih s hnext⟩

/-- A handler goes on from wherever the guarded part failed. -/
theorem Keeps.tryCatch {p : Prog S E A} {f : E → Prog S E A} {s₀ : S} (hrefl : ∀ s, R s s)
    (h : Keeps I R (fun r s => match r with
      | .ok a => Q (.ok a) s
      | .error e => Keeps I R Q (f e) s) p s₀) :
    Keeps I R Q (tryCatch p f) s₀ := by
  show Keeps I R Q (Prog.handle p f) s₀
  induction p generalizing s₀ with
  | done r =>
    cases r with
    | ok a => exact h
    | error e =>
      show Keeps I R Q (f e) s₀
      cases hf : f e with
      | done r =>
        intro s hs hI
        have hhere := h s hs hI
        simp only [hf] at hhere
        exact hhere s (hrefl s) hI
      | step change next =>
        intro s hs hI
        have hhere := h s hs hI
        simp only [hf] at hhere
        exact hhere s (hrefl s) hI
  | step change next ih =>
    intro s hs hI
    obtain ⟨hinv,hrel,hnext⟩ := h s hs hI
    exact ⟨hinv,hrel,ih s hnext⟩

/-- The end of a program is related to where it started. -/
theorem Keeps.since (hrefl : ∀ s, R s s) (htrans : ∀ a b c, R a b → R b c → R a c)
    {p : Prog S E A} {s₀ : S} (h : Keeps I R Q p s₀) :
    Keeps I R (fun r s => R s₀ s ∧ Q r s) p s₀ := by
  have hfrom : ∀ start, R start s₀ → Keeps I R (fun r s => R start s ∧ Q r s) p s₀ := by
    induction p generalizing s₀ with
    | done r => exact fun start hstart s hs hI => ⟨htrans _ _ _ hstart hs,h s hs hI⟩
    | step change next ih =>
      intro start hstart s hs hI
      obtain ⟨hinv,hrel,hnext⟩ := h s hs hI
      exact ⟨hinv,hrel,ih s hnext start (htrans _ _ _ hstart (htrans _ _ _ hs hrel))⟩
  exact hfrom s₀ (hrefl s₀)

/-- A sequence, with what its first part leaves and where the states are later than the start. -/
theorem Keeps.seq {Q' : Except E B → S → Prop} {p : Prog S E A} {f : A → Prog S E B} {s₀ : S}
    (hrefl : ∀ s, R s s) (htrans : ∀ a b c, R a b → R b c → R a c) (h : Keeps I R Q p s₀)
    (hok : ∀ a s, R s₀ s → Q (.ok a) s → Keeps I R Q' (f a) s)
    (herror : ∀ e s, R s₀ s → Q (.error e) s → Q' (.error e) s) : Keeps I R Q' (p >>= f) s₀ := by
  refine Keeps.bind hrefl ((h.since hrefl htrans).weaken fun r s _ hr => ?_)
  cases r with
  | ok a => exact hok a s hr.1 hr.2
  | error e => exact herror e s hr.1 hr.2

/-- A step that is given with its ends. -/
theorem Keeps.of_ends {f : S → Except E A × S} {s₀ : S}
    (h : ∀ s, R s₀ s → I s → Ends (fun r s' => I s' ∧ R s s' ∧
      ∀ t, R s' t → I t → Q r t) (Prog.atomic f) s) : Keeps I R Q (Prog.atomic f) s₀ := h

variable {ι : Type} [DecidableEq ι]

/-- Programs that share a state. -/
structure Pool (ι S E A : Type) where
  threads : ι → Prog S E A
  state : S

/-- The thread makes its next step; one that has ended does nothing. -/
def Pool.advance (pool : Pool ι S E A) (i : ι) : Pool ι S E A :=
  match pool.threads i with
  | .done _ => pool
  | .step change next =>
    { threads := Function.update pool.threads i (next pool.state), state := change pool.state }

def Pool.schedule (pool : Pool ι S E A) (order : List ι) : Pool ι S E A :=
  order.foldl Pool.advance pool

/-- Every thread keeps to the invariant and the relation from the present state on. -/
structure Pool.Orderly (I : S → Prop) (R : S → S → Prop) (Q : Except E A → S → Prop)
    (pool : Pool ι S E A) : Prop where
  holds : I pool.state
  keeps : ∀ i, Keeps I R Q (pool.threads i) pool.state

theorem Pool.Orderly.advance (hrefl : ∀ s, R s s) (htrans : ∀ a b c, R a b → R b c → R a c)
    {pool : Pool ι S E A} (h : pool.Orderly I R Q) (i : ι) :
    (pool.advance i).Orderly I R Q ∧ R pool.state (pool.advance i).state := by
  unfold Pool.advance
  cases ht : pool.threads i with
  | done r => exact ⟨h,hrefl _⟩
  | step change next =>
    have hstep := h.keeps i
    rw [ht] at hstep
    obtain ⟨hinv,hrel,hnext⟩ := hstep pool.state (hrefl _) h.holds
    refine ⟨⟨hinv,fun j => ?_⟩,hrel⟩
    by_cases hj : j = i
    · subst hj
      simpa using hnext
    · have hlater : Keeps I R Q (pool.threads j) (change pool.state) :=
        Keeps.later htrans (h.keeps j) hrel
      simpa [Function.update_of_ne hj] using hlater

/-- Whatever the schedule, the invariant holds at its end, and its start and end are related. -/
theorem Pool.Orderly.schedule (hrefl : ∀ s, R s s)
    (htrans : ∀ a b c, R a b → R b c → R a c) {pool : Pool ι S E A}
    (h : pool.Orderly I R Q) (order : List ι) :
    (pool.schedule order).Orderly I R Q ∧ R pool.state (pool.schedule order).state := by
  induction order generalizing pool with
  | nil => exact ⟨h,hrefl _⟩
  | cons i order ih =>
    obtain ⟨hnext,hrel⟩ := h.advance hrefl htrans i
    obtain ⟨hend,hrest⟩ := ih hnext
    exact ⟨hend,htrans _ _ _ hrel hrest⟩

end Interleaving

end Prog
end NexusEtl.Library
