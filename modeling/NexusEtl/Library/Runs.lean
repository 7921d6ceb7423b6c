import Mathlib.Order.Basic
import Mathlib.Algebra.GroupWithZero.Nat

/-!
# Runs of a deterministic system

A run applies a list of events to a state. `AllSteps` and `SomeStep` speak
about the steps on the way, each with the state before it. The rules are the
usual ones: an invariant holds at the end of a run, and a property that every
step keeps or discharges holds at the end unless some step discharged it. A
loop that an error breaks off keeps the state that it had reached.
-/

set_option autoImplicit false

namespace NexusEtl.Library

variable {S E : Type}

def run (step : S → E → S) : S → List E → S
  | s, [] => s
  | s, e::es => run step (step s e) es

def AllSteps (step : S → E → S) (G : S → E → Prop) : S → List E → Prop
  | _, [] => True
  | s, e::es => G s e ∧ AllSteps step G (step s e) es

def SomeStep (step : S → E → S) (G : S → E → Prop) : S → List E → Prop
  | _, [] => False
  | s, e::es => G s e ∨ SomeStep step G (step s e) es

variable {step : S → E → S} {G H : S → E → Prop} {P I : S → Prop}

instance AllSteps.decidable [∀ s e, Decidable (G s e)] :
    ∀ s es, Decidable (AllSteps step G s es)
  | _, [] => .isTrue trivial
  | s, e::es =>
    have := AllSteps.decidable (step s e) es
    inferInstanceAs (Decidable (G s e ∧ AllSteps step G (step s e) es))

theorem run_append (s : S) (es fs : List E) :
    run step s (es ++ fs) = run step (run step s es) fs := by
  induction es generalizing s with
  | nil => rfl
  | cons e es ih => exact ih (step s e)

theorem allSteps_append (s : S) (es fs : List E) :
    AllSteps step G s (es ++ fs) ↔
      AllSteps step G s es ∧ AllSteps step G (run step s es) fs := by
  induction es generalizing s with
  | nil => simp [AllSteps, run]
  | cons e es ih => simp [AllSteps, run, ih, and_assoc]

theorem AllSteps.mono (h : ∀ s e, G s e → H s e) {s : S} {es : List E}
    (hs : AllSteps step G s es) : AllSteps step H s es := by
  induction es generalizing s with
  | nil => trivial
  | cons e es ih => exact ⟨h s e hs.1,ih hs.2⟩

theorem AllSteps.and {s : S} {es : List E} (h : AllSteps step G s es)
    (h' : AllSteps step H s es) : AllSteps step (fun s e => G s e ∧ H s e) s es := by
  induction es generalizing s with
  | nil => trivial
  | cons e es ih => exact ⟨⟨h.1,h'.1⟩,ih h.2 h'.2⟩

theorem allSteps_of_mem {Q : E → Prop} {es : List E} (h : ∀ e ∈ es, Q e) (s : S) :
    AllSteps step (fun _ e => Q e) s es := by
  induction es generalizing s with
  | nil => trivial
  | cons e es ih =>
    exact ⟨h e List.mem_cons_self,ih (fun f hf => h f (List.mem_cons_of_mem _ hf)) _⟩

/-- An invariant of the allowed steps holds at the end of the run. -/
theorem run_invariant (hstep : ∀ s e, I s → G s e → I (step s e)) {s : S} {es : List E}
    (h : I s) (hs : AllSteps step G s es) : I (run step s es) := by
  induction es generalizing s with
  | nil => exact h
  | cons e es ih => exact ih (hstep s e h hs.1) hs.2

/-- What every allowed step from a state with the invariant satisfies, every step of
the run satisfies. -/
theorem allSteps_of_invariant (hstep : ∀ s e, I s → G s e → I (step s e))
    (hgoal : ∀ s e, I s → G s e → H s e) {s : S} {es : List E} (h : I s)
    (hs : AllSteps step G s es) : AllSteps step H s es := by
  induction es generalizing s with
  | nil => trivial
  | cons e es ih => exact ⟨hgoal s e h hs.1,ih (hstep s e h hs.1) hs.2⟩

/-- A property that allowed steps keep unless they discharge it is kept by the run
unless some step of it discharged it. -/
theorem run_unless (hinv : ∀ s e, I s → G s e → I (step s e))
    (hstep : ∀ s e, I s → G s e → P s → P (step s e) ∨ H s e) {s : S} {es : List E}
    (hI : I s) (hs : AllSteps step G s es) (hP : P s) :
    P (run step s es) ∨ SomeStep step H s es := by
  induction es generalizing s with
  | nil => exact .inl hP
  | cons e es ih =>
    rcases hstep s e hI hs.1 hP with h | h
    · rcases ih (hinv s e hI hs.1) hs.2 h with h | h
      · exact .inl h
      · exact .inr (.inr h)
    · exact .inr (.inl h)

/-- A run whose events change nothing or make progress returns to its start only if none of
them changed anything. -/
theorem run_eq_self_iff (progress : S → Nat) {es : List E} (s : S)
    (h : ∀ s, ∀ e ∈ es, step s e = s ∨ progress s < progress (step s e)) :
    run step s es = s ↔ ∀ e ∈ es, step s e = s := by
  have hle : ∀ fs : List E, (∀ e ∈ fs, e ∈ es) → ∀ s, progress s ≤ progress (run step s fs) := by
    intro fs
    induction fs with
    | nil => exact fun _ _ => Nat.le_refl _
    | cons e fs ih =>
      intro hfs s
      have hrest := ih (fun f hf => hfs f (List.mem_cons_of_mem _ hf)) (step s e)
      rcases h s e (hfs e List.mem_cons_self) with heq | hlt
      · rw [heq] at hrest
        rw [run, heq]
        exact hrest
      · exact Nat.le_trans (Nat.le_of_lt hlt) hrest
  have hall : ∀ fs : List E, (∀ e ∈ fs, e ∈ es) →
      (run step s fs = s ↔ ∀ e ∈ fs, step s e = s) := by
    intro fs
    induction fs with
    | nil => exact fun _ => by simp [run]
    | cons e fs ih =>
      intro hfs
      have hmem := fun f hf => hfs f (List.mem_cons_of_mem _ hf)
      rcases h s e (hfs e List.mem_cons_self) with heq | hlt
      · rw [run, heq, ih hmem]
        simp [heq]
      · have hrest := hle fs hmem (step s e)
        constructor
        · intro hrun
          rw [run] at hrun
          rw [hrun] at hrest
          omega
        · intro hsame
          rw [hsame e List.mem_cons_self] at hlt
          exact absurd hlt (Nat.lt_irrefl _)
  exact hall es fun _ he => he

/-- The same where an event is known to be idle before it happens. -/
theorem run_eq_self_iff_idle (progress : S → Nat) {Idle : S → E → Prop}
    (h : ∀ s e, (Idle s e ∧ step s e = s) ∨ (¬ Idle s e ∧ progress s < progress (step s e)))
    (s : S) (es : List E) : run step s es = s ↔ ∀ e ∈ es, Idle s e := by
  have hidle : ∀ e, step s e = s ↔ Idle s e := by
    intro e
    rcases h s e with ⟨hidle,hsame⟩ | ⟨hbusy,hlt⟩
    · exact iff_of_true hsame hidle
    · refine iff_of_false (fun hsame => ?_) hbusy
      rw [hsame] at hlt
      exact Nat.lt_irrefl _ hlt
  rw [run_eq_self_iff progress s fun s e _ => (h s e).imp And.right And.right]
  exact forall₂_congr fun e _ => hidle e

section Loops

variable {X A : Type}

/-- A loop over a list that stops at the first error. -/
def eachUntil (body : A → S → Option X × S) : List A → S → Option X × S
  | [], s => (none,s)
  | a::as, s => match body a s with
    | (none,s) => eachUntil body as s
    | (some x,s) => (some x,s)

/-- A relation that every round keeps is kept by the loop, wherever it stops. -/
theorem eachUntil_rel {R : S → S → Prop} (hrefl : ∀ s, R s s)
    (htrans : ∀ s t u, R s t → R t u → R s u) {body : A → S → Option X × S}
    (hbody : ∀ a s, R s (body a s).2) (as : List A) (s : S) :
    R s (eachUntil body as s).2 := by
  induction as generalizing s with
  | nil => exact hrefl s
  | cons a as ih =>
    have hround := hbody a s
    unfold eachUntil
    split
    · rename_i t heq
      rw [heq] at hround
      exact htrans _ _ _ hround (ih t)
    · rename_i x t heq
      rw [heq] at hround
      exact hround

/-- What every completed round adds, a completed loop adds up. -/
theorem eachUntil_sum {body : A → S → Option X × S} {m : S → Nat} {w : A → Nat}
    (hbody : ∀ a s, (body a s).1 = none → m (body a s).2 = m s + w a) (as : List A) (s : S)
    (h : (eachUntil body as s).1 = none) :
    m (eachUntil body as s).2 = m s + (as.map w).sum := by
  induction as generalizing s with
  | nil => rfl
  | cons a as ih =>
    have hround := hbody a s
    unfold eachUntil at h ⊢
    split at h
    · rename_i t heq
      rw [heq] at hround
      rw [ih t h, hround rfl, List.map_cons, List.sum_cons, Nat.add_assoc]
    · cases h

/-- A completed loop has completed every round. -/
theorem eachUntil_all {body : A → S → Option X × S} {P : A → Prop}
    (hbody : ∀ a s, (body a s).1 = none → P a) (as : List A) (s : S)
    (h : (eachUntil body as s).1 = none) : ∀ a ∈ as, P a := by
  induction as generalizing s with
  | nil => exact fun a ha => absurd ha List.not_mem_nil
  | cons a as ih =>
    have hround := hbody a s
    unfold eachUntil at h
    split at h
    · rename_i t heq
      rw [heq] at hround
      exact List.forall_mem_cons.mpr ⟨hround rfl,ih t h⟩
    · cases h

end Loops

end NexusEtl.Library
