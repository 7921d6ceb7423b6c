import NexusEtl.Diagnostics

/-!
# The transaction scope of the engine

A scope takes its effects back when its body raises an exception, and it commits
them when the body ends. An interrupt, or the closing of a generator that is
suspended inside the scope, is no `Exception`: the transaction stays open, and no
other can be opened on the connection from then on. These are the only ways out
of the scope that fail.
-/

set_option autoImplicit false

namespace NexusEtl
open NexusEtl.Library

variable {D : Type}

/-- A connection without implicit transactions: what is committed, and what the transaction that
is open has made of it. -/
structure SqliteConnection (D : Type) where
  committed : D
  working : Option D
  deriving DecidableEq, Repr

/-- The exceptions that are no `Exception`. -/
inductive BaseException
  | keyboardInterrupt | generatorExit | systemExit
  deriving DecidableEq, Repr

/-- How a body ends, and how its scope does. -/
inductive ScopeEnd
  | returns
  | raises (e : PyException)
  | interrupted (e : BaseException)
  deriving DecidableEq, Repr

/-- One use of a scope: the statements that run while it is open, and what fails. -/
structure ScopeUse (D : Type) where
  beginFails : Bool
  statements : List (D → D)
  ending : ScopeEnd
  commitFails : Bool

namespace SqliteConnection

def inTransaction (c : SqliteConnection D) : Bool := c.working.isSome

/-- A statement acts on the transaction that is open, or takes effect at once. -/
def execute (f : D → D) (c : SqliteConnection D) : SqliteConnection D :=
  match c.working with
  | some d => { c with working := some (f d) }
  | none => { c with committed := f c.committed }

def executeAll (statements : List (D → D)) (c : SqliteConnection D) : SqliteConnection D :=
  statements.foldl (fun c f => c.execute f) c

def begun (c : SqliteConnection D) : SqliteConnection D := { c with working := some c.committed }

def commit (c : SqliteConnection D) : SqliteConnection D := ⟨c.working.getD c.committed,none⟩

def rollback (c : SqliteConnection D) : SqliteConnection D := { c with working := none }

theorem executeAll_working {c : SqliteConnection D} {d : D} (h : c.working = some d)
    (statements : List (D → D)) : c.executeAll statements =
      { c with working := some (statements.foldl (fun d f => f d) d) } := by
  induction statements generalizing c d with
  | nil =>
    rw [executeAll, List.foldl_nil, List.foldl_nil, ← h]
  | cons f statements ih =>
    have hstep : c.execute f = { c with working := some (f d) } := by rw [execute, h]
    rw [executeAll, List.foldl_cons, hstep]
    exact ih rfl

theorem executeAll_begun (c : SqliteConnection D) (statements : List (D → D)) :
    c.begun.executeAll statements =
      { c with working := some (statements.foldl (fun d f => f d) c.committed) } :=
  executeAll_working rfl statements

theorem execute_inTransaction (c : SqliteConnection D) (f : D → D) :
    (c.execute f).inTransaction = c.inTransaction := by
  unfold execute inTransaction
  cases c.working with
  | some d => rfl
  | none => rfl

end SqliteConnection

namespace SqliteEngine

def nestedError : PyException := ⟨"RuntimeError","Nested transactions are not supported"⟩

def operationalError : PyException := ⟨"OperationalError","database error"⟩

/-- The part of `transaction` before its `yield`. -/
def enter (beginFails : Bool) (c : SqliteConnection D) :
    Except PyException (SqliteConnection D) :=
  if c.inTransaction then .error nestedError
  else if beginFails then .error operationalError
  else .ok c.begun

/-- The part of `transaction` from its `yield` on: an `Exception` rolls back, another passes. -/
def leave (commitFails : Bool) (ending : ScopeEnd) (c : SqliteConnection D) :
    ScopeEnd × SqliteConnection D :=
  match ending with
  | .returns => if commitFails then (.raises operationalError,c.rollback) else (.returns,c.commit)
  | .raises e => (.raises e,c.rollback)
  | .interrupted e => (.interrupted e,c)

def transaction (u : ScopeUse D) (c : SqliteConnection D) : ScopeEnd × SqliteConnection D :=
  match enter u.beginFails c with
  | .error e => (.raises e,c)
  | .ok c => leave u.commitFails u.ending (c.executeAll u.statements)

end SqliteEngine

open SqliteEngine

/-- What happens on a connection: statements of their own, and scopes. -/
inductive EngineStep (D : Type)
  | statement (f : D → D)
  | scope (u : ScopeUse D)

def EngineStep.run : EngineStep D → SqliteConnection D → SqliteConnection D
  | .statement f, c => c.execute f
  | .scope u, c => (transaction u c).2

def runSteps (steps : List (EngineStep D)) (c : SqliteConnection D) : SqliteConnection D :=
  steps.foldl (fun c step => step.run c) c

/-- What the statements of a scope make of the data. -/
def ScopeUse.effect (u : ScopeUse D) (d : D) : D := u.statements.foldl (fun d f => f d) d

def ScopeUse.Interrupted (u : ScopeUse D) : Prop := ∃ e, u.ending = .interrupted e

/-- After the scope no transaction is open, its effects are committed exactly if it returned, and
another transaction can be opened. -/
structure ScopeUse.Restores (u : ScopeUse D) (c : SqliteConnection D) : Prop where
  outside : (transaction u c).2.inTransaction = false
  committed : (transaction u c).1 = .returns →
    (transaction u c).2.committed = u.effect c.committed
  rolledBack : (transaction u c).1 ≠ .returns → (transaction u c).2.committed = c.committed
  reopens : ∃ c', enter false (transaction u c).2 = .ok c'

section Scopes

variable {u : ScopeUse D} {c : SqliteConnection D}

theorem transaction_open (h : c.inTransaction = false) (hbegin : u.beginFails = false) :
    transaction u c =
      leave u.commitFails u.ending { c with working := some (u.effect c.committed) } := by
  unfold transaction enter
  simp only [h, hbegin, Bool.false_eq_true, if_false]
  rw [SqliteConnection.executeAll_begun]
  rfl

theorem transaction_unbegun (h : c.inTransaction = false) (hbegin : u.beginFails = true) :
    transaction u c = (.raises operationalError,c) := by
  unfold transaction enter
  simp [h, hbegin]

theorem enter_of_outside (h : c.inTransaction = false) : ∃ c', enter false c = .ok c' :=
  ⟨c.begun,by simp [enter, h]⟩

/-- A scope that is not interrupted restores the connection. -/
theorem ScopeUse.restores (h : c.inTransaction = false)
    (hends : u.beginFails = false → ¬u.Interrupted) : u.Restores c := by
  have houtside : ∀ {out : ScopeEnd × SqliteConnection D}, transaction u c = out →
      out.2.inTransaction = false → (out.1 = .returns → out.2.committed = u.effect c.committed) →
      (out.1 ≠ .returns → out.2.committed = c.committed) → u.Restores c := by
    rintro _ rfl hout hcommitted hrolled
    exact ⟨hout,hcommitted,hrolled,enter_of_outside hout⟩
  cases hbegin : u.beginFails with
  | true => exact houtside (transaction_unbegun h hbegin) h nofun fun _ => rfl
  | false =>
    have hopen := transaction_open h hbegin
    cases hending : u.ending with
    | returns =>
      rw [hending, leave] at hopen
      cases hcommit : u.commitFails with
      | true =>
        rw [hcommit, if_pos rfl] at hopen
        exact houtside hopen rfl nofun fun _ => rfl
      | false =>
        rw [hcommit, if_neg Bool.false_ne_true] at hopen
        exact houtside hopen rfl (fun _ => rfl) fun hne => absurd rfl hne
    | raises e =>
      rw [hending] at hopen
      exact houtside hopen rfl nofun fun _ => rfl
    | interrupted e => exact absurd ⟨e,hending⟩ (hends hbegin)

/-- An interrupted scope leaves its transaction open. -/
theorem ScopeUse.Interrupted.stays_open (h : u.Interrupted) (hout : c.inTransaction = false)
    (hbegin : u.beginFails = false) : (transaction u c).2.inTransaction = true := by
  obtain ⟨e,hending⟩ := h
  rw [transaction_open hout hbegin, hending]
  rfl

/-- While a transaction is left open, no other can be opened and nothing is committed. -/
theorem transaction_stuck (h : c.inTransaction = true) :
    transaction u c = (.raises nestedError,c) := by
  unfold transaction enter
  rw [if_pos h]

end Scopes

section Runs

variable {steps : List (EngineStep D)} {c : SqliteConnection D}

theorem runSteps_append (steps rest : List (EngineStep D)) (c : SqliteConnection D) :
    runSteps (steps ++ rest) c = runSteps rest (runSteps steps c) := List.foldl_append

theorem runSteps_snoc (steps : List (EngineStep D)) (step : EngineStep D)
    (c : SqliteConnection D) : runSteps (steps ++ [step]) c = step.run (runSteps steps c) := by
  rw [runSteps_append]
  rfl

/-- Every scope among the steps finds the connection restored by those before it. -/
def AllRestore (steps : List (EngineStep D)) (c : SqliteConnection D) : Prop :=
  ∀ before u after, steps = before ++ .scope u::after → u.Restores (runSteps before c)

theorem AllRestore.tail {step : EngineStep D} (h : AllRestore (step::steps) c) :
    AllRestore steps (step.run c) := by
  intro before u after heq
  exact h (step::before) u after (by rw [heq]; rfl)

/-- Along steps whose scopes are not interrupted every scope restores the connection. -/
theorem allRestore_of_uninterrupted (h : c.inTransaction = false)
    (hends : ∀ u, .scope u ∈ steps → u.beginFails = false → ¬u.Interrupted) :
    AllRestore steps c ∧ (runSteps steps c).inTransaction = false := by
  induction steps generalizing c with
  | nil => exact ⟨fun before u after heq => by simp at heq,h⟩
  | cons step steps ih =>
    have hstep : (step.run c).inTransaction = false := by
      cases step with
      | statement f => exact (c.execute_inTransaction f).trans h
      | scope u => exact (ScopeUse.restores h (hends u List.mem_cons_self)).outside
    have hrest := ih hstep fun u hu => hends u (List.mem_cons_of_mem _ hu)
    refine ⟨fun before u after heq => ?_,hrest.2⟩
    cases before with
    | nil =>
      obtain ⟨rfl,rfl⟩ := List.cons.inj heq
      exact ScopeUse.restores h (hends u List.mem_cons_self)
    | cons first before =>
      obtain ⟨rfl,rfl⟩ := List.cons.inj heq
      exact hrest.1 before u after rfl

end Runs

/-- One turn of the loop of `_iter_resolved`, a scope: the statement of each row that it yields,
those after the last row, and how fetching and resolving the batch ends. -/
structure ResolveTurn (D : Type) where
  beginFails : Bool
  rows : List (D → D)
  rest : List (D → D)
  ending : ScopeEnd
  commitFails : Bool

/-- The consumer asks for the next row, runs a statement of its own, or closes the generator. -/
inductive Demand (D : Type)
  | next
  | statement (f : D → D)
  | close

/-- `_iter_resolved`, suspended inside the scope of a turn, or not. -/
inductive Resolving (D : Type)
  | between (turns : List (ResolveTurn D))
  | inside (rows : List (D → D)) (turn : ResolveTurn D) (turns : List (ResolveTurn D))
  | finished

namespace Resolving

def isInside : Resolving D → Bool
  | .inside _ _ _ => true
  | _ => false

/-- The end of a turn after its last row. -/
def leaveTurn (turn : ResolveTurn D) (c : SqliteConnection D) : ScopeEnd × SqliteConnection D :=
  leave turn.commitFails turn.ending (c.executeAll turn.rest)

/-- The turns of the loop up to the next row. -/
def startTurn : List (ResolveTurn D) → SqliteConnection D → Resolving D × SqliteConnection D
  | [], c => (.finished,c)
  | turn::turns, c =>
    match enter turn.beginFails c with
    | .error _ => (.finished,c)
    | .ok c => match turn.rows with
      | f::rows => (.inside rows turn turns,c.execute f)
      | [] => match leaveTurn turn c with
        | (.returns,c) => startTurn turns c
        | (_,c) => (.finished,c)

/-- What a demand makes of the generator and the connection. -/
def step : Demand D → Resolving D → SqliteConnection D → Resolving D × SqliteConnection D
  | .statement f, gen, c => (gen,c.execute f)
  | .next, .between turns, c => startTurn turns c
  | .next, .inside (f::rows) turn turns, c => (.inside rows turn turns,c.execute f)
  | .next, .inside [] turn turns, c =>
    match leaveTurn turn c with
    | (.returns,c) => startTurn turns c
    | (_,c) => (.finished,c)
  | .next, .finished, c => (.finished,c)
  | .close, .inside _ turn _, c =>
    (.finished,(leave turn.commitFails (.interrupted .generatorExit) c).2)
  | .close, _, c => (.finished,c)

def run (demands : List (Demand D)) (gen : Resolving D) (c : SqliteConnection D) :
    Resolving D × SqliteConnection D :=
  demands.foldl (fun state demand => step demand state.1 state.2) (gen,c)

/-- The connection is where steps took it, and the scope that is open if the generator is
suspended; only what may interrupt a scope has done so. -/
def Traced (turns : List (ResolveTurn D)) (may : BaseException → Prop) (c₀ : SqliteConnection D)
    (gen : Resolving D) (c : SqliteConnection D) : Prop :=
  ∃ steps : List (EngineStep D),
    (∀ u, .scope u ∈ steps → ∀ e, u.ending = .interrupted e → may e) ∧
    match gen with
    | .between later => later ⊆ turns ∧ c = runSteps steps c₀
    | .inside _ turn later => turn ∈ turns ∧ later ⊆ turns ∧ ∃ done,
        (runSteps steps c₀).inTransaction = false ∧
          c = (runSteps steps c₀).begun.executeAll done
    | .finished => c = runSteps steps c₀

section Traces

variable {turns : List (ResolveTurn D)} {may : BaseException → Prop} {c₀ : SqliteConnection D}

/-- The end of a scope completes the steps by that scope. -/
theorem traced_leave {steps : List (EngineStep D)}
    (hmay : ∀ u, .scope u ∈ steps → ∀ e, u.ending = .interrupted e → may e)
    (hout : (runSteps steps c₀).inTransaction = false) (done : List (D → D)) (commitFails : Bool)
    {ending : ScopeEnd} (hending : ∀ e, ending = .interrupted e → may e) :
    ∃ steps' : List (EngineStep D),
      (∀ u, .scope u ∈ steps' → ∀ e, u.ending = .interrupted e → may e) ∧
      (leave commitFails ending ((runSteps steps c₀).begun.executeAll done)).2 =
        runSteps steps' c₀ := by
  refine ⟨steps ++ [.scope ⟨false,done,ending,commitFails⟩],fun u hu e he => ?_,?_⟩
  · rcases List.mem_append.mp hu with hold | hnew
    · exact hmay u hold e he
    · obtain rfl := EngineStep.scope.inj (List.mem_singleton.mp hnew)
      exact hending e he
  · rw [runSteps_snoc, EngineStep.run, transaction, enter, hout]
    rfl

theorem executeAll_append (c : SqliteConnection D) (done rest : List (D → D)) :
    (c.executeAll done).executeAll rest = c.executeAll (done ++ rest) :=
  List.foldl_append.symm

/-- The end of a turn and what follows it. -/
theorem traced_endTurn {turn : ResolveTurn D} {later : List (ResolveTurn D)}
    (hturn : ∀ e, turn.ending = .interrupted e → may e)
    (hlater : ∀ steps : List (EngineStep D),
      (∀ u, .scope u ∈ steps → ∀ e, u.ending = .interrupted e → may e) →
        Traced turns may c₀ (startTurn later (runSteps steps c₀)).1
          (startTurn later (runSteps steps c₀)).2) {steps : List (EngineStep D)}
    (hmay : ∀ u, .scope u ∈ steps → ∀ e, u.ending = .interrupted e → may e)
    (hout : (runSteps steps c₀).inTransaction = false) (done : List (D → D)) :
    let out := match leaveTurn turn ((runSteps steps c₀).begun.executeAll done) with
      | (.returns,c) => startTurn later c
      | (_,c) => (.finished,c)
    Traced turns may c₀ out.1 out.2 := by
  obtain ⟨steps',hmay',hleave⟩ := traced_leave hmay hout (done ++ turn.rest) turn.commitFails hturn
  rw [← executeAll_append, ← leaveTurn] at hleave
  rcases hout' : leaveTurn turn ((runSteps steps c₀).begun.executeAll done) with ⟨ending,c⟩
  rw [hout'] at hleave
  obtain rfl : c = runSteps steps' c₀ := hleave
  cases ending with
  | returns => exact hlater steps' hmay'
  | raises e => exact ⟨steps',hmay',rfl⟩
  | interrupted e => exact ⟨steps',hmay',rfl⟩

theorem traced_startTurn (hturns : ∀ turn ∈ turns, ∀ e, turn.ending = .interrupted e → may e)
    {later : List (ResolveTurn D)} (hlater : later ⊆ turns) {steps : List (EngineStep D)}
    (hmay : ∀ u, .scope u ∈ steps → ∀ e, u.ending = .interrupted e → may e) :
    Traced turns may c₀ (startTurn later (runSteps steps c₀)).1
      (startTurn later (runSteps steps c₀)).2 := by
  induction later generalizing steps with
  | nil => exact ⟨steps,hmay,rfl⟩
  | cons turn later ih =>
    obtain ⟨hturn,hrest⟩ := List.cons_subset.mp hlater
    unfold startTurn enter
    by_cases hin : (runSteps steps c₀).inTransaction = true
    · rw [if_pos hin]
      exact ⟨steps,hmay,rfl⟩
    rw [if_neg hin]
    rw [Bool.not_eq_true] at hin
    cases hbegin : turn.beginFails with
    | true => exact ⟨steps,hmay,rfl⟩
    | false =>
      cases hrows : turn.rows with
      | cons f rows => exact ⟨steps,hmay,hturn,hrest,[f],hin,rfl⟩
      | nil =>
        exact traced_endTurn (hturns turn hturn) (fun steps hmay => ih hrest hmay) hmay hin []

theorem traced_step (hturns : ∀ turn ∈ turns, ∀ e, turn.ending = .interrupted e → may e)
    {demand : Demand D} (hclose : demand = .close → may .generatorExit) {gen : Resolving D}
    {c : SqliteConnection D} (h : Traced turns may c₀ gen c) :
    Traced turns may c₀ (step demand gen c).1 (step demand gen c).2 := by
  obtain ⟨steps,hmay,hgen⟩ := h
  have hstatement : ∀ f : D → D, ∀ u, EngineStep.scope u ∈ steps ++ [.statement f] →
      ∀ e, u.ending = .interrupted e → may e := by
    intro f u hu
    rcases List.mem_append.mp hu with hold | hnew
    · exact hmay u hold
    · cases List.mem_singleton.mp hnew
  cases gen with
  | between later =>
    obtain ⟨hlater,rfl⟩ := hgen
    cases demand with
    | next => exact traced_startTurn hturns hlater hmay
    | statement f =>
      refine ⟨steps ++ [.statement f],hstatement f,hlater,?_⟩
      exact (runSteps_snoc steps (.statement f) c₀).symm
    | close => exact ⟨steps,hmay,rfl⟩
  | inside rows turn later =>
    obtain ⟨hturn,hlater,done,hout,rfl⟩ := hgen
    cases demand with
    | next =>
      cases rows with
      | nil =>
        exact traced_endTurn (hturns turn hturn)
          (fun steps hmay => traced_startTurn hturns hlater hmay) hmay hout done
      | cons f rows =>
        exact ⟨steps,hmay,hturn,hlater,done ++ [f],hout,executeAll_append _ done [f]⟩
    | statement f =>
      exact ⟨steps,hmay,hturn,hlater,done ++ [f],hout,executeAll_append _ done [f]⟩
    | close =>
      have hexit : ∀ e, ScopeEnd.interrupted .generatorExit = .interrupted e → may e := by
        intro e he
        cases he
        exact hclose rfl
      exact traced_leave hmay hout done turn.commitFails hexit
  | finished =>
    obtain rfl := hgen
    cases demand with
    | next => exact ⟨steps,hmay,rfl⟩
    | statement f =>
      refine ⟨steps ++ [.statement f],hstatement f,?_⟩
      exact (runSteps_snoc steps (.statement f) c₀).symm
    | close => exact ⟨steps,hmay,rfl⟩

theorem traced_run (hturns : ∀ turn ∈ turns, ∀ e, turn.ending = .interrupted e → may e)
    {demands : List (Demand D)} (hclose : .close ∈ demands → may .generatorExit) {gen : Resolving D}
    {c : SqliteConnection D} (h : Traced turns may c₀ gen c) :
    Traced turns may c₀ (run demands gen c).1 (run demands gen c).2 := by
  induction demands generalizing gen c with
  | nil => exact h
  | cons demand demands ih =>
    refine ih (fun hlater => hclose (List.mem_cons_of_mem _ hlater)) (traced_step hturns ?_ h)
    rintro rfl
    exact hclose List.mem_cons_self

/-- A resolve run that nothing interrupts and that its consumer does not close leaves no
transaction open, whenever it is not suspended inside the scope of a turn. -/
theorem outside_of_uninterrupted (hturns : ∀ turn ∈ turns, ∀ e, turn.ending ≠ .interrupted e)
    {demands : List (Demand D)} (hclose : .close ∉ demands) {c : SqliteConnection D}
    (h : c.inTransaction = false) (hgen : (run demands (.between turns) c).1.isInside = false) :
    (run demands (.between turns) c).2.inTransaction = false := by
  have hstart : Traced turns (fun _ => False) c (.between turns) c :=
    ⟨[],by simp,List.Subset.refl _,rfl⟩
  obtain ⟨steps,hmay,hstate⟩ := traced_run hturns (fun hmem => hclose hmem) hstart
  have hout : (runSteps steps c).inTransaction = false :=
    (allRestore_of_uninterrupted h fun u hu _ ⟨e,he⟩ => hmay u hu e he).2
  rcases hrun : run demands (.between turns) c with ⟨gen,c'⟩
  rw [hrun] at hstate hgen
  cases gen with
  | between later =>
    obtain ⟨_,rfl⟩ := hstate
    exact hout
  | inside rows turn later => cases hgen
  | finished =>
    obtain rfl := hstate
    exact hout

end Traces

end Resolving

end NexusEtl
