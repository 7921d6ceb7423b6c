import NexusEtl.EnrichDsl
import NexusEtl.Library.Programs

/-!
# Generated values

A rule that generates builds a base in every attempt and tries candidates made
of it. The first attempt that misses its base or has an acceptable candidate
decides. The checks of existence are counted as the steps of a program of which
the generator of the enricher is the result.
-/

set_option autoImplicit false

namespace NexusEtl
open NexusEtl.Library

namespace EnricherCore

variable {D : Type} (core : EnricherCore D) (deps : D)

/-! ## The generator as a program of existence checks -/

/-- A computation whose atomic steps are the calls of `op.exists`. -/
abbrev Checking := Prog Unit PyException

def acceptsChecking (op : EnrichmentOperation D) (result : Enriching) (value : Value) :
    Checking Bool :=
  match op.existing with
  | none => pure true
  | some existing => do
    match ← Prog.atomic fun _ => (existing deps value,()) with
    | none => return true
    | some owner => match op.allowIf with
      | some allow => Prog.ofExcept (allow result owner)
      | none => return false

def firstAcceptedChecking (op : EnrichmentOperation D) (result : Enriching) :
    List Value → Checking (Option Value)
  | [] => pure none
  | candidate::rest => do
    let current ← Prog.ofExcept (postprocessed op candidate)
    if current.isBlank then firstAcceptedChecking op result rest
    else if ← acceptsChecking deps op result current then return some current
    else firstAcceptedChecking op result rest

def compiledChecking (op : EnrichmentOperation D) (result : Enriching) (attempt : Nat) :
    Nat → Checking Collected
  | 0 => pure (missingOr op.conflictErrorCode "unable to generate unique value" op.errorField)
  | left+1 => do
    let base ← Prog.ofExcept (compiledBase deps op result attempt)
    if base.isBlank then
      return missingOr op.missingErrorCode "required value is missing" op.errorField
    match ← firstAcceptedChecking deps op result (compiledCandidates op base) with
    | some value => return .ok [core.generatedCandidate op value]
    | none =>
      if op.conflictPolicy.isSome then
        return missingOr op.conflictErrorCode "unable to generate unique value" op.errorField
      else compiledChecking op result (attempt+1) left

def attemptsOf (op : EnrichmentOperation D) : Nat :=
  match op.conflictPolicy with
  | some policy => policy.attempts
  | none => (max 1 op.maxAttempts).toNat

/-- The number of existence checks of `_generate_compiled_candidates`. -/
def existsChecks (op : EnrichmentOperation D) (result : Enriching) : Nat :=
  (core.compiledChecking deps op result 0 (attemptsOf op)).steps ()

theorem run_bind_gives {α β : Type} {p : Checking α} {r : Except PyException α}
    {f : α → Checking β} {g : α → Except PyException β} (hp : p.run () = (r,()))
    (hf : ∀ a, (f a).run () = (g a,())) : (p >>= f).run () = (r >>= g,()) := by
  rw [Prog.run_bind, hp]
  cases r with
  | error exc => rfl
  | ok a => exact hf a

theorem acceptsChecking_run (op : EnrichmentOperation D) (result : Enriching) (value : Value) :
    (acceptsChecking deps op result value).run () = (accepts deps op result value,()) := by
  unfold acceptsChecking accepts
  cases op.existing with
  | none => rfl
  | some existing =>
    refine run_bind_gives rfl fun owner => ?_
    cases owner with
    | none => rfl
    | some owner => cases op.allowIf <;> rfl

theorem firstAcceptedChecking_run (op : EnrichmentOperation D) (result : Enriching)
    (candidates : List Value) :
    (firstAcceptedChecking deps op result candidates).run () =
      (firstAccepted deps op result candidates,()) := by
  induction candidates with
  | nil => rfl
  | cons candidate rest ih =>
    unfold firstAcceptedChecking firstAccepted
    refine run_bind_gives rfl fun current => ?_
    cases current.isBlank with
    | true => exact ih
    | false =>
      refine run_bind_gives (acceptsChecking_run deps op result current) fun accepted => ?_
      cases accepted with
      | true => rfl
      | false => exact ih

/-- The program ends with what the generator of the enricher answers. -/
theorem compiledChecking_run (op : EnrichmentOperation D) (result : Enriching)
    (attempt left : Nat) :
    (core.compiledChecking deps op result attempt left).run () =
      (core.compiledAttempts deps op result attempt left,()) := by
  induction left generalizing attempt with
  | zero => rfl
  | succ left ih =>
    unfold compiledChecking compiledAttempts
    refine run_bind_gives rfl fun base => ?_
    cases base.isBlank with
    | true => rfl
    | false =>
      refine run_bind_gives (firstAcceptedChecking_run deps op result _) fun found => ?_
      cases found with
      | some value => rfl
      | none =>
        cases op.conflictPolicy.isSome with
        | true => rfl
        | false => exact ih (attempt+1)

/-! ## The number of checks -/

theorem acceptsChecking_steps (op : EnrichmentOperation D) (result : Enriching) (value : Value) :
    (acceptsChecking deps op result value).steps () ≤ 1 := by
  unfold acceptsChecking
  cases op.existing with
  | none => exact Nat.zero_le 1
  | some existing =>
    refine Prog.steps_bind_le (n := 0) (Nat.le_of_eq rfl) fun owner _ => ?_
    cases owner with
    | none => exact Nat.le_refl 0
    | some owner => cases op.allowIf <;> exact Nat.le_refl 0

theorem firstAcceptedChecking_steps (op : EnrichmentOperation D) (result : Enriching)
    (candidates : List Value) :
    (firstAcceptedChecking deps op result candidates).steps () ≤ candidates.length := by
  induction candidates with
  | nil => exact Nat.le_refl 0
  | cons candidate rest ih =>
    unfold firstAcceptedChecking
    refine Prog.steps_ofExcept_bind_le fun current => ?_
    rw [List.length_cons, Nat.add_comm]
    cases current.isBlank with
    | true => exact ih.trans (Nat.le_add_left _ _)
    | false =>
      refine Prog.steps_bind_le (acceptsChecking_steps deps op result current)
        fun accepted _ => ?_
      cases accepted with
      | true => exact Nat.zero_le _
      | false => exact ih

theorem compiledCandidates_length (op : EnrichmentOperation D) (base : Value) :
    (compiledCandidates op base).length ≤ match op.conflictPolicy with
      | some policy => 1 + policy.suffixes.length
      | none => 1 := by
  unfold compiledCandidates
  cases op.conflictPolicy with
  | none => exact Nat.le_refl 1
  | some policy => cases hs : policy.strategy <;> simp [hs, Nat.add_comm]

/-- One attempt checks each of its candidates once; without a conflict policy an attempt has
one candidate and the next attempt may follow. -/
theorem compiledChecking_steps (op : EnrichmentOperation D) (result : Enriching)
    (attempt left : Nat) :
    (core.compiledChecking deps op result attempt left).steps () ≤
      match op.conflictPolicy with
      | some policy => 1 + policy.suffixes.length
      | none => left := by
  induction left generalizing attempt with
  | zero => exact Nat.zero_le _
  | succ left ih =>
    unfold compiledChecking
    refine Prog.steps_ofExcept_bind_le fun base => ?_
    have hfirst := (firstAcceptedChecking_steps deps op result (compiledCandidates op base)).trans
      (compiledCandidates_length op base)
    cases base.isBlank with
    | true => exact Nat.zero_le _
    | false =>
      cases hp : op.conflictPolicy with
      | some policy =>
        rw [hp] at hfirst
        refine Prog.steps_bind_le (n := 0) hfirst fun found _ => ?_
        cases found <;> exact Nat.le_refl 0
      | none =>
        rw [hp] at hfirst
        refine (Prog.steps_bind_le (n := left) hfirst fun found _ => ?_).trans
          (Nat.le_of_eq (Nat.add_comm 1 left))
        cases found with
        | some value => exact Nat.zero_le left
        | none =>
          have hrest := ih (attempt+1)
          rw [hp] at hrest
          exact hrest

/-! ## What the attempts come to -/

/-- What one attempt decides with its base: its value is missing, or its first candidate that is
accepted is generated. -/
def attemptOutcome (op : EnrichmentOperation D) (post : Value → Value) (accepted : Value → Bool)
    (base : Value) : Option Collected :=
  if base.isBlank then
    some (missingOr op.missingErrorCode "required value is missing" op.errorField)
  else (((compiledCandidates op base).map post).find? fun v => !v.isBlank && accepted v).map
    fun value => .ok [core.generatedCandidate op value]

/-- The first attempt that decides, or a conflict. -/
def attemptsOutcome (op : EnrichmentOperation D) (post : Value → Value) (accepted : Value → Bool)
    (bases : List Value) : Collected :=
  (bases.findSome? (core.attemptOutcome op post accepted)).getD
    (missingOr op.conflictErrorCode "unable to generate unique value" op.errorField)

section Law

variable {core deps} {op : EnrichmentOperation D} {result : Enriching} {base : Nat → Value}
  {post : Value → Value} {accepted : Value → Bool}

theorem firstAccepted_eq (hpost : ∀ v, postprocessed op v = .ok (post v))
    (haccepts : ∀ v, accepts deps op result v = .ok (accepted v)) (candidates : List Value) :
    firstAccepted deps op result candidates =
      .ok ((candidates.map post).find? fun v => !v.isBlank && accepted v) := by
  induction candidates with
  | nil => rfl
  | cons candidate rest ih =>
    unfold firstAccepted
    rw [hpost, List.map_cons, List.find?_cons]
    simp only [bind, Except.bind, haccepts, ih]
    cases (post candidate).isBlank with
    | true => simp
    | false => cases accepted (post candidate) <;> simp [pure, Except.pure]

theorem compiledAttempts_succ (hbase : ∀ a, compiledBase deps op result a = .ok (base a))
    (hpost : ∀ v, postprocessed op v = .ok (post v))
    (haccepts : ∀ v, accepts deps op result v = .ok (accepted v)) (attempt left : Nat) :
    core.compiledAttempts deps op result attempt (left+1) =
      match core.attemptOutcome op post accepted (base attempt) with
      | some outcome => .ok outcome
      | none => if op.conflictPolicy.isSome then
          .ok (missingOr op.conflictErrorCode "unable to generate unique value" op.errorField)
        else core.compiledAttempts deps op result (attempt+1) left := by
  rw [compiledAttempts, attemptOutcome]
  simp only [hbase, bind, Except.bind, firstAccepted_eq hpost haccepts, pure, Except.pure]
  cases (base attempt).isBlank with
  | true => rfl
  | false =>
    simp only [Bool.false_eq_true, if_false]
    cases ((compiledCandidates op (base attempt)).map post).find?
      fun v => !v.isBlank && accepted v <;> rfl

/-- Without a conflict policy the attempts follow one another. -/
theorem compiledAttempts_redrawn (hpolicy : op.conflictPolicy = none)
    (hbase : ∀ a, compiledBase deps op result a = .ok (base a))
    (hpost : ∀ v, postprocessed op v = .ok (post v))
    (haccepts : ∀ v, accepts deps op result v = .ok (accepted v)) (attempt left : Nat) :
    core.compiledAttempts deps op result attempt left =
      .ok (core.attemptsOutcome op post accepted ((List.range' attempt left).map base)) := by
  induction left generalizing attempt with
  | zero => rfl
  | succ left ih =>
    rw [compiledAttempts_succ hbase hpost haccepts, hpolicy, attemptsOutcome, List.range'_succ,
      List.map_cons, List.findSome?_cons]
    cases core.attemptOutcome op post accepted (base attempt) with
    | some outcome => rfl
    | none => exact ih (attempt+1)

/-- Under a conflict policy the first attempt is the last. -/
theorem compiledAttempts_policy (hpolicy : op.conflictPolicy.isSome = true)
    (hbase : ∀ a, compiledBase deps op result a = .ok (base a))
    (hpost : ∀ v, postprocessed op v = .ok (post v))
    (haccepts : ∀ v, accepts deps op result v = .ok (accepted v)) (left : Nat) :
    core.compiledAttempts deps op result 0 (left+1) =
      .ok (core.attemptsOutcome op post accepted [base 0]) := by
  rw [compiledAttempts_succ hbase hpost haccepts, attemptsOutcome, hpolicy]
  simp only [List.findSome?_cons, List.findSome?_nil]
  cases core.attemptOutcome op post accepted (base 0) <;> rfl

end Law

end EnricherCore

/-! ## Compiled rules -/

namespace EnrichRule
open EnricherCore

variable {D : Type} (rule : EnrichRule) (engine : TransformationEngine)
  (gateway : ProviderGateway D) (lib : TextLibrary)

def extend (built appended : Value) : Value :=
  if appended.isBlank then built
  else if built.isBlank then appended
  else .str (built.pyStr ++ appended.pyStr)

/-- The base of an attempt: the built value, extended by the append value when the condition
holds. -/
def baseValue (result : Enriching) (attempt : Nat) : Value :=
  let built := rule.builtValue engine attempt result
  match rule.whenBlock, rule.thenBlock with
  | some block, some append =>
    if conditionOf engine block result then
      extend built (appendedValue engine append attempt result)
    else built
  | _, _ => built

/-- A value that nobody has, or whose owner the rule allows. -/
def allowed (taken : Value → Option Value) (result : Enriching) (value : Value) : Bool :=
  match taken value with
  | none => true
  | some owner => rule.allowIf.any fun call => allows engine call result owner

/-- The exists provider of the rule answers by the taken values and their owners. -/
def AnsweredBy (deps : D) (taken : Value → Option Value) : Prop :=
  match rule.existsRef with
  | none => ∀ v, taken v = none
  | some provider => ∀ v, gateway.existingValue lib provider deps v = .ok (taken v)

/-- The operation of the rule, with a function that postprocesses every candidate. -/
def postprocessing (secrets : List String) (runs : RunWhenErrors)
    (post : Option (Value → Value)) : EnrichmentOperation D :=
  { rule.generateOperation engine gateway lib secrets runs with
    postprocess := post.map fun f value => .ok (f value) }

/-- The number of attempts: one under a conflict policy, else at least one. -/
def attempts : Nat := if rule.onConflict.isSome then 1 else (max 1 rule.resolveMaxAttempts).toNat

def checksBound : Nat :=
  match rule.onConflict with
  | some policy => 1 + policy.suffixes.length
  | none => (max 1 rule.resolveMaxAttempts).toNat

variable {rule engine gateway lib} {deps : D} {secrets : List String} {runs : RunWhenErrors}
  {post : Option (Value → Value)} {result : Enriching} {taken : Value → Option Value}

theorem compiledBase_postprocessing (attempt : Nat) :
    compiledBase deps (rule.postprocessing engine gateway lib secrets runs post) result attempt =
      .ok (rule.baseValue engine result attempt) := by
  unfold compiledBase compiledBase.firstGenerator baseValue postprocessing generateOperation
  cases rule.whenBlock with
  | none => rfl
  | some block =>
    simp only [Option.map_some, bind, Except.bind]
    cases rule.thenBlock with
    | none => cases conditionOf engine block result <;> rfl
    | some append =>
      simp only [Option.map_some]
      split
      · unfold extend
        split
        · rfl
        · split <;> rfl
      · rfl

theorem postprocessed_postprocessing (value : Value) :
    postprocessed (rule.postprocessing engine gateway lib secrets runs post) value =
      .ok (post.getD id value) := by
  unfold postprocessed postprocessing
  cases post <;> rfl

theorem accepts_postprocessing (hanswered : rule.AnsweredBy gateway lib deps taken)
    (value : Value) :
    accepts deps (rule.postprocessing engine gateway lib secrets runs post) result value =
      .ok (rule.allowed engine taken result value) := by
  unfold accepts allowed postprocessing generateOperation
  unfold AnsweredBy at hanswered
  cases hexists : rule.existsRef with
  | none =>
    rw [hexists] at hanswered
    rw [hanswered]
    rfl
  | some provider =>
    rw [hexists] at hanswered
    simp only [Option.map_some, bind, Except.bind, hanswered]
    cases taken value with
    | none => rfl
    | some owner => cases rule.allowIf <;> rfl

/-- Attempts that build the same base come to what the first one decides. -/
theorem attemptsOutcome_same_base {core : EnricherCore D} {op : EnrichmentOperation D}
    {post : Value → Value} {accepted : Value → Bool} {bases : List Value} {base : Value}
    (hne : bases ≠ []) (hsame : ∀ b ∈ bases, b = base) :
    core.attemptsOutcome op post accepted bases = core.attemptsOutcome op post accepted [base] := by
  obtain ⟨first,rest,rfl⟩ := List.exists_cons_of_ne_nil hne
  obtain rfl := hsame first List.mem_cons_self
  unfold attemptsOutcome
  rw [List.findSome?_cons, List.findSome?_cons, List.findSome?_nil]
  cases hout : core.attemptOutcome op post accepted first with
  | some outcome => rfl
  | none =>
    have hrest : rest.findSome? (core.attemptOutcome op post accepted) = none := by
      rw [List.findSome?_eq_none_iff]
      intro b hb
      rw [hsame b (List.mem_cons_of_mem _ hb), hout]
    rw [hrest]

theorem attempts_pos (rule : EnrichRule) : 0 < rule.attempts := by
  unfold attempts
  split
  · exact Nat.one_pos
  · omega

/-- Under a conflict policy the operation makes one attempt, and at least one is left to it. -/
theorem attemptsOf_postprocessing (rule : EnrichRule) :
    let op : EnrichmentOperation D := rule.postprocessing engine gateway lib secrets runs post
    (op.conflictPolicy = none ∧ attemptsOf op = rule.attempts ∧
        rule.checksBound = rule.attempts) ∨
      ∃ policy left, op.conflictPolicy = some policy ∧ attemptsOf op = left + 1 ∧
        rule.attempts = 1 ∧ rule.checksBound = 1 + policy.suffixes.length := by
  intro op
  have hpolicy : op.conflictPolicy = rule.conflictPolicy := rfl
  cases hconflict : rule.onConflict with
  | none =>
    have hnone : op.conflictPolicy = none := by
      rw [hpolicy, conflictPolicy, hconflict]
      rfl
    refine .inl ⟨hnone,?_,?_⟩
    · rw [attemptsOf, hnone, attempts, hconflict]
      rfl
    · rw [checksBound, attempts, hconflict]
      rfl
  | some policy =>
    have hsome : op.conflictPolicy = some ⟨policy.strategy,policy.suffixes,
        if policy.strategy = .error then 1 else 1 + policy.suffixes.length⟩ := by
      rw [hpolicy, conflictPolicy, hconflict]
      rfl
    obtain ⟨left,hleft⟩ : ∃ left, attemptsOf op = left + 1 := by
      rw [attemptsOf, hsome]
      dsimp only
      split
      · exact ⟨0,rfl⟩
      · exact ⟨_,Nat.add_comm _ _⟩
    refine .inr ⟨_,left,hsome,hleft,?_,?_⟩
    · rw [attempts, hconflict]
      rfl
    · rw [checksBound, hconflict]

theorem generated_and_checked {core : EnricherCore D}
    (hanswered : rule.AnsweredBy gateway lib deps taken) :
    let op := rule.postprocessing engine gateway lib secrets runs post
    core.generateCandidates deps op result = .ok (core.attemptsOutcome op (post.getD id)
        (rule.allowed engine taken result)
        ((List.range rule.attempts).map (rule.baseValue engine result))) ∧
      core.existsChecks deps op result ≤ rule.checksBound := by
  intro op
  have hbase : ∀ a, compiledBase deps op result a = .ok (rule.baseValue engine result a) :=
    compiledBase_postprocessing
  have hpost : ∀ v, postprocessed op v = .ok (post.getD id v) := postprocessed_postprocessing
  have haccepts : ∀ v, accepts deps op result v = .ok (rule.allowed engine taken result v) :=
    accepts_postprocessing hanswered
  have hgenerate : core.generateCandidates deps op result =
      core.compiledAttempts deps op result 0 (attemptsOf op) := rfl
  have hsteps := core.compiledChecking_steps deps op result 0 (attemptsOf op)
  rw [hgenerate]
  rcases @attemptsOf_postprocessing D engine gateway lib secrets runs post rule with
    ⟨hnone,hattempts,hbound⟩ | ⟨policy,left,hsome,hleft,hattempts,hbound⟩
  · rw [hnone] at hsteps
    refine ⟨?_,hsteps.trans ?_⟩
    · rw [hattempts, compiledAttempts_redrawn hnone hbase hpost haccepts, List.range_eq_range']
    · rw [hattempts, hbound]
  · rw [hsome] at hsteps
    refine ⟨?_,hsteps.trans (Nat.le_of_eq hbound.symm)⟩
    rw [hleft, hattempts]
    exact compiledAttempts_policy (by rw [hsome]; rfl) hbase hpost haccepts left

/-- The first attempt that misses its base or has an acceptable candidate decides what is
generated; attempts that build one base come to what the first decides. Existence is checked
at most once for every candidate of an attempt. -/
theorem generated_by_first_attempt {core : EnricherCore D}
    (hanswered : rule.AnsweredBy gateway lib deps taken) :
    let op := rule.postprocessing engine gateway lib secrets runs post
    core.generateCandidates deps op result = .ok (core.attemptsOutcome op (post.getD id)
        (rule.allowed engine taken result)
        ((List.range rule.attempts).map (rule.baseValue engine result))) ∧
      ((∀ attempt, rule.baseValue engine result attempt = rule.baseValue engine result 0) →
        core.generateCandidates deps op result = .ok (core.attemptsOutcome op (post.getD id)
          (rule.allowed engine taken result) [rule.baseValue engine result 0])) ∧
      core.existsChecks deps op result ≤ rule.checksBound := by
  intro op
  obtain ⟨hvalue,hchecks⟩ := @generated_and_checked D rule engine gateway lib deps secrets runs post
    result taken core hanswered
  refine ⟨hvalue,fun hsame => ?_,hchecks⟩
  have hne : (List.range rule.attempts).map (rule.baseValue engine result) ≠ [] := by
    simp [rule.attempts_pos.ne']
  rw [hvalue, attemptsOutcome_same_base hne]
  intro b hb
  obtain ⟨attempt,_,rfl⟩ := List.mem_map.mp hb
  exact hsame attempt

theorem no_blocks : (none : Option SourceOpsBlock).isSome = true →
    (none : Option SourceOpsBlock).isSome = true := id

/-- A login that somebody has already is built again as long as attempts are left. -/
def takenRule (maxAttempts : Option Int) : EnrichRule where
  name := "login"
  target := "user_name"
  source := some "email"
  ops := [⟨"draw",[]⟩]
  existsRef := some { name := "logins" }
  maxAttempts := maxAttempts
  then_when := no_blocks

def loginTaken (value : Value) : Option Value :=
  if value = .str "doe" then some (.dict [("id",.int 1)]) else none

def loginGateway : ProviderGateway Unit where
  lookup := []
  existing := [("logins",fun _ value _ => .ok (loginTaken value))]
  readAll _ _ _ := .ok []

/-- The first draw gives a taken login, the others a free one. -/
def drawing : TransformationEngine := fun attempt =>
  [("draw",fun _ _ => .ok (.str (if attempt = 0 then "doe" else "roe")))]

def doeResult : Enriching where
  record := ⟨2,"line:2",[]⟩
  row := some [("email",.str "doe@x")]
  rowRef := none
  matchKey := none
  metadata := []
  secretCandidates := []
  errors := []
  warnings := []

def loginCore : EnricherCore Unit where
  spec := { operations := [] }
  putMany := none
  dataset := "employees"
  catalog := []
  sinkSpec := none
  runId := none

theorem takenRule_answered (maxAttempts : Option Int) :
    (takenRule maxAttempts).AnsweredBy loginGateway ⟨id,fun _ _ s => .ok s⟩ () loginTaken :=
  fun _ => rfl

theorem generated_by_first_attempt_login :
    let op := (takenRule none).postprocessing drawing loginGateway ⟨id,fun _ _ s => .ok s⟩ []
      .never none
    loginCore.generateCandidates () op doeResult = .ok (loginCore.attemptsOutcome op id
        ((takenRule none).allowed drawing loginTaken doeResult)
        ((List.range (takenRule none).attempts).map
          ((takenRule none).baseValue drawing doeResult))) ∧
      ((∀ attempt, (takenRule none).baseValue drawing doeResult attempt =
          (takenRule none).baseValue drawing doeResult 0) →
        loginCore.generateCandidates () op doeResult = .ok (loginCore.attemptsOutcome op id
          ((takenRule none).allowed drawing loginTaken doeResult)
          [(takenRule none).baseValue drawing doeResult 0])) ∧
      loginCore.existsChecks () op doeResult ≤ (takenRule none).checksBound :=
  generated_by_first_attempt (takenRule_answered none)

/-- The value returned is not made of the value built first, and a rule that allows no attempt
makes one check. -/
theorem built_again_and_checked_once :
    let op (maxAttempts : Option Int) := (takenRule maxAttempts).postprocessing drawing
      loginGateway ⟨id,fun _ _ s => .ok s⟩ [] .never none
    (takenRule none).baseValue drawing doeResult 0 = .str "doe" ∧
      loginCore.generateCandidates () (op none) doeResult =
        .ok (.ok [loginCore.generatedCandidate (op none) (.str "roe")]) ∧
      ¬(loginCore.existsChecks () (op (some (-1))) doeResult : Int) ≤
        (takenRule (some (-1))).resolveMaxAttempts :=
  ⟨by decide,rfl,by decide⟩

end EnrichRule
end NexusEtl
