import NexusEtl.LinkSteps
import NexusEtl.History

/-!
# A link at its last attempt

When a pending link has used up its attempts, the row is to be given up. The
loop keeps this in one flag that every later pending link of the row sets anew.
-/

set_option autoImplicit false

namespace NexusEtl
open NexusEtl.Library

namespace ResolveCore

variable (core : ResolveCore) (db : IdentityDb) (call : ResolveCall)

/-- The row is given up: nothing raises, and the loop is stopped, or partial rows are not
allowed, or the last stored link reaches the maximum, or the row is rejected all the same. -/
def KeepsHardStop : Prop :=
  (∀ p ∈ core.linkTrace db call, ∀ exc, core.flowAt db call p ≠ .raised exc) ∧
  ((∃ p ∈ core.linkTrace db call, core.flowAt db call p = .stop) ∨
    core.settings.pendingAllowPartial = false ∨
    (core.linkFates db call).getLast? = some true ∨
    ∃ s mutated, core.linkStart db call = some (s,mutated) ∧
      core.rejects call (core.resolveLinkLoop db call core.linkRules s).2 mutated = true)

theorem flagAfterAll_iff {fates : List Bool} (h : true ∈ fates) :
    core.flagAfterAll false fates = true ↔
      core.settings.pendingAllowPartial = false ∨ fates.getLast? = some true := by
  have hne : fates ≠ [] := List.ne_nil_of_mem h
  rw [flagAfterAll, List.getLast?_eq_some_getLast hne]
  cases hlast : fates.getLast hne <;> simp [flagAfter]

/-- A row with a link that reaches the maximum is given up exactly when no later link of it
is stored below the maximum, unless something else ends it. -/
theorem max_attempts_stop_iff (h : true ∈ core.linkFates db call) :
    ReturnsNone (core.resolve db call) ↔ core.KeepsHardStop db call := by
  cases hstart : core.linkStart db call with
  | none =>
    rw [linkFates, linkTrace, hstart] at h
    cases h
  | some start =>
  obtain ⟨s,mutated⟩ := start
  have hs : s.shouldStop = false := by
    unfold linkStart at hstart
    split at hstart
    · split at hstart
      · cases hstart
        rfl
      · cases hstart
    · cases hstart
  have htrace : core.linkTrace db call = core.visited db call core.linkRules s := by
    rw [linkTrace, hstart]
  obtain ⟨hraise,hflag⟩ := core.resolveLinkLoop_end db call core.linkRules s
  have hfates : (core.visited db call core.linkRules s).filterMap (core.fateAt db call) =
      core.linkFates db call := by rw [linkFates, htrace]
  rw [hs, hfates, core.flagAfterAll_iff h, ← htrace] at hflag
  rw [← htrace] at hraise
  rw [core.resolve_of_linkStart db call hstart]
  cases hloop : core.resolveLinkLoop db call core.linkRules s with
  | mk exc s' =>
  rw [hloop] at hraise hflag
  have hrejects : (∃ t m, some (s,mutated) = some (t,m) ∧
      core.rejects call (core.resolveLinkLoop db call core.linkRules t).2 m = true) ↔
      core.rejects call s' mutated = true := by
    constructor
    · rintro ⟨t,m,heq,hr⟩
      cases heq
      rwa [hloop] at hr
    · intro hr
      exact ⟨s,mutated,rfl,by rwa [hloop]⟩
  cases exc with
  | some exc =>
    constructor
    · rintro ⟨resolution,hres,_⟩
      cases hres
    · intro hkeeps
      exact absurd (hraise.mpr hkeeps.1) (by simp)
  | none =>
    rw [core.finish_returnsNone_iff, hflag rfl, KeepsHardStop, hstart, hrejects]
    constructor
    · intro hend
      refine ⟨hraise.mp rfl,?_⟩
      rcases hend with (hstop | hpartial | hlast) | hrej
      · exact .inl hstop
      · exact .inr (.inl hpartial)
      · exact .inr (.inr (.inl hlast))
      · exact .inr (.inr (.inr hrej))
    · rintro ⟨_,hstop | hpartial | hlast | hrej⟩
      · exact .inl (.inl hstop)
      · exact .inl (.inr (.inl hpartial))
      · exact .inl (.inr (.inr hlast))
      · exact .inr hrej

/-- Two link rules, at most two attempts, rows may go on with open links. -/
def twoAttempts : ResolveCore :=
  { plainCore [codeLink "manager" "employees", codeLink "unit" "organizations"] with
    settings := ⟨0,2,true⟩ }

def onboarding (unit : Value) : ResolveCall :=
  callOn (newRow 2 "line:2" "E1" (.str "emp-1") [("manager",.str "M1"),("unit",unit)])

/-- The manager has been looked for once already. -/
def lookedForOnce : IdentityDb :=
  { index := [], pending := (twoAttempts.resolve .empty (onboarding .null)).pending }

/-- The link to the manager reaches its last attempt and is marked a conflict, the link to
the unit waits, and the row is resolved. -/
theorem row_outlives_last_attempt :
    true ∈ twoAttempts.linkFates lookedForOnce (onboarding (.str "U1")) ∧
    ((twoAttempts.resolve lookedForOnce (onboarding (.str "U1"))).pending.rows.map fun l =>
      (l.field,l.status)) = [("manager",.conflict), ("unit",.pending)] ∧
    ¬ ReturnsNone (twoAttempts.resolve lookedForOnce (onboarding (.str "U1"))) := by
  refine ⟨by decide,by decide,?_⟩
  rintro ⟨resolution,hres,hrow⟩
  have hsome : ((twoAttempts.resolve lookedForOnce (onboarding (.str "U1"))).result.toOption.bind
      Resolution.row).isSome = true := by decide
  rw [hres] at hsome
  have hbind : (some resolution).bind Resolution.row = none := hrow
  rw [Except.toOption, hbind] at hsome
  cases hsome

theorem max_attempts_stop_iff_onboarding :
    ReturnsNone (twoAttempts.resolve lookedForOnce (onboarding (.str "U1"))) ↔
      twoAttempts.KeepsHardStop lookedForOnce (onboarding (.str "U1")) :=
  twoAttempts.max_attempts_stop_iff _ _ (by decide)

end ResolveCore
end NexusEtl
