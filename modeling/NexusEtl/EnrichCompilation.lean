import NexusEtl.EnrichDsl
import NexusEtl.Library.Fallible

/-!
# Which enrich specifications compile

The schema, the tables of the compiler and the enumerations of the enricher are
three lists. They agree on every merge and strictness choice. The choice
`if_any` has a runtime policy of its meaning, but the compiler asks for it
under a name that the enumeration does not have.
-/

set_option autoImplicit false

namespace NexusEtl
open NexusEtl.Library

/-! ## What the choices of a rule mean -/

/-- Whether a candidate replaces the current value under a merge choice. -/
def MergeChoice.Replaces (authoritative : List String) (current : Value)
    (candidate : CandidateValue) : MergeChoice → Bool
  | .recomputeAlways => true
  | .neverOverride => false
  | .fillOnlyIfEmpty | .overrideIfEmpty => current.isBlank
  | .overrideIfAuthoritative => authoritative.contains candidate.source

def StrictnessChoice.outcome : StrictnessChoice → EnrichOutcome
  | .skip => .skipped
  | .warn => .warned
  | .error => .failed
  | .needsResolve => .needsResolve

def RunChoice.policy : RunChoice → RunWhenErrors
  | .never => .never
  | .ifAny => .onlyNonFatal
  | .always => .always

namespace EnrichRule

variable (rule : EnrichRule)

/-- The outcome that `on_error` gives to a situation without a choice of its own. -/
def onErrorOutcome : EnrichOutcome := (ofOnError rule.onError).outcome

/-- The strictness that a rule chooses. -/
def chosenStrictness : StrictnessPolicy where
  onMissingKey := (rule.onMissingKey.map StrictnessChoice.outcome).getD .skipped
  onNoCandidates := (rule.onNoCandidates.map StrictnessChoice.outcome).getD rule.onErrorOutcome
  onAmbiguous := (rule.onAmbiguous.map StrictnessChoice.outcome).getD .needsResolve
  onProviderError :=
    (rule.onProviderError.map fun c => (ofOnError c).outcome).getD rule.onErrorOutcome

/-- An operation of one target that has the policies of the rule. -/
structure Realised {D : Type} (type : EnrichOperationType) (target : String)
    (op : EnrichmentOperation D) : Prop where
  name : op.name = rule.name
  type : op.opType = type
  targets : op.targets = [target]
  unset : rule.merge = none → op.mergePolicy = none
  merge : ∀ choice ∈ rule.merge, ∃ mode ∈ op.mergePolicy,
    ∀ (authoritative : List String) (current : Value) (candidate : CandidateValue),
      MergeEngine.shouldApply authoritative current candidate mode =
        choice.Replaces authoritative current candidate
  strictness : op.strictness = some rule.chosenStrictness
  runs : op.runWhenErrors = (rule.runWhenErrors.getD .never).policy

theorem mapStrictnessOutcome_eq (raw : Option StrictnessChoice) (fallback : EnrichOutcome) :
    mapStrictnessOutcome raw fallback = (raw.map StrictnessChoice.outcome).getD fallback := by
  cases raw with
  | none => rfl
  | some choice => cases choice <;> rfl

theorem strictnessFor_eq : rule.strictnessFor = rule.chosenStrictness := by
  have hlegacy : (if rule.onError = .warn then EnrichOutcome.warned else .failed) =
      rule.onErrorOutcome := by
    unfold onErrorOutcome
    cases rule.onError <;> rfl
  simp only [strictnessFor, chosenStrictness, hlegacy, mapStrictnessOutcome_eq, Option.map_map,
    Function.comp_def]

/-- Every merge choice is compiled to a mode of its meaning. -/
theorem mergePolicyFor_means {choice : MergeChoice} (h : choice ∈ rule.merge) :
    ∃ mode ∈ rule.mergePolicyFor,
      ∀ (authoritative : List String) (current : Value) (candidate : CandidateValue),
        MergeEngine.shouldApply authoritative current candidate mode =
          choice.Replaces authoritative current candidate := by
  rw [Option.mem_def] at h
  simp only [mergePolicyFor, h, Option.map_some, Option.mem_def, Option.some.injEq,
    exists_eq_left']
  cases choice <;> exact fun _ _ _ => rfl

/-- The table of `run_when_errors` has an entry for every choice but `if_any`. -/
theorem runWhenErrorsFor_iff {runs : RunWhenErrors} : rule.runWhenErrorsFor = .ok runs ↔
    rule.runWhenErrors ≠ some .ifAny ∧ runs = (rule.runWhenErrors.getD .never).policy := by
  unfold runWhenErrorsFor
  cases rule.runWhenErrors with
  | none => simp [RunChoice.policy, eq_comm]
  | some choice => cases choice <;> simp [RunChoice.policy, eq_comm]

variable {rule} {D : Type} {engine : TransformationEngine} {gateway : ProviderGateway D}
  {lib : TextLibrary}

theorem generateOperation_realised {secrets : List String} {runs : RunWhenErrors}
    (hruns : runs = (rule.runWhenErrors.getD .never).policy) :
    rule.Realised .generate
      (if rule.target ∈ secrets then secretPrefix ++ rule.target else rule.target)
      (rule.generateOperation engine gateway lib secrets runs) where
  name := rfl
  type := rfl
  targets := rfl
  unset h := by simp [generateOperation, mergePolicyFor, h]
  merge _ := rule.mergePolicyFor_means
  strictness := congrArg some rule.strictnessFor_eq
  runs := hruns

theorem lookupOperation_realised {provider : ProviderRef} {runs : RunWhenErrors}
    (hruns : runs = (rule.runWhenErrors.getD .never).policy) :
    rule.Realised .lookup rule.target
      (rule.lookupOperation engine gateway lib provider runs) where
  name := rfl
  type := rfl
  targets := rfl
  unset h := by simp [lookupOperation, mergePolicyFor, h]
  merge _ := rule.mergePolicyFor_means
  strictness := congrArg some rule.strictnessFor_eq
  runs := hruns

end EnrichRule

/-! ## The provider contract -/

/-- A canonicalization is declared at the cache provider that reads it, in the exact mode. -/
def ProviderRef.Fits (provider : ProviderRef) (cacheName : String) : Prop :=
  provider.canonicalization.isSome = true →
    provider.name = cacheName ∧ ProviderGateway.modeOf provider.args = "exact"

structure EnrichRule.ProvidersFit (rule : EnrichRule) : Prop where
  provider : ∀ p ∈ rule.provider, p.Fits "cache.by_field"
  existing : ∀ p ∈ rule.existsRef, p.Fits "cache.exists_by_field"

/-- The provider contract: a look-up has a provider, and canonicalizations fit. -/
structure EnrichSpec.ProviderContract (spec : EnrichSpec) : Prop where
  lookup : ∀ rule ∈ spec.enrich.lookup, rule.provider.isSome = true
  fits : ∀ rule ∈ spec.rules, rule.ProvidersFit

namespace EnrichRule

variable {rule : EnrichRule}

theorem validateCanonicalization_fits {cacheName kind unsupported exactOnly : String}
    {provider : ProviderRef} (h : provider.Fits cacheName) :
    rule.validateCanonicalization cacheName kind unsupported exactOnly provider = .ok () := by
  unfold validateCanonicalization
  dsimp only
  cases hc : provider.canonicalization with
  | none => rfl
  | some ops =>
    obtain ⟨hname,hmode⟩ := h (by rw [hc]; rfl)
    simp [hname, hmode]

theorem validateProviderContract_fits (h : rule.ProvidersFit) :
    rule.validateProviderContract = .ok () := by
  refine bind_ok_iff.mpr ⟨(),?_,?_⟩
  · unfold validateProviderCanonicalization
    cases hp : rule.provider with
    | none => rfl
    | some provider => exact validateCanonicalization_fits (h.provider provider hp)
  · unfold validateExistsCanonicalization
    cases he : rule.existsRef with
    | none => rfl
    | some provider => exact validateCanonicalization_fits (h.existing provider he)

variable {D : Type} {engine : TransformationEngine} {gateway : ProviderGateway D}
  {lib : TextLibrary}

theorem compileGenerate_iff {secrets : List String} {op : EnrichmentOperation D} :
    rule.compileGenerate engine gateway lib secrets = .ok op ↔ ∃ runs,
      rule.runWhenErrorsFor = .ok runs ∧
        rule.generateOperation engine gateway lib secrets runs = op := by
  unfold compileGenerate
  cases rule.runWhenErrorsFor with
  | error exc => simp
  | ok runs => simp

theorem compileLookup_iff {op : EnrichmentOperation D} :
    rule.compileLookup engine gateway lib = .ok op ↔ ∃ provider ∈ rule.provider, ∃ runs,
      rule.runWhenErrorsFor = .ok runs ∧
        rule.lookupOperation engine gateway lib provider runs = op := by
  unfold compileLookup
  cases rule.provider with
  | none => simp
  | some provider =>
    cases rule.runWhenErrorsFor with
    | error exc => simp
    | ok runs => simp

end EnrichRule

/-! ## The whole specification -/

namespace EnrichSpec
open EnrichRule

variable (spec : EnrichSpec)

/-- One operation for the match key and one for every rule, the look-ups first, each list in the
declared order. -/
def Realised {D : Type} (compiled : EnricherSpec D) : Prop :=
  ∃ lookups generates,
    compiled.operations =
      spec.enrich.matchKey.toList.map MatchKeySpec.operation ++ lookups ++ generates ∧
    List.Forall₂ (fun rule op => rule.Realised .lookup rule.target op)
      spec.enrich.lookup lookups ∧
    List.Forall₂ (fun rule op => rule.Realised .generate
      (if rule.target ∈ spec.secretFields then secretPrefix ++ rule.target else rule.target) op)
      spec.enrich.generate generates

/-- No rule chooses `if_any`. -/
def AvoidsIfAny : Prop := ∀ rule ∈ spec.rules, rule.runWhenErrors ≠ some .ifAny

/-- The match key is there where the option asks for it. -/
def MatchKeyFits (options : EnrichDslBuildOptions) : Prop :=
  options.requireMatchKey = true → spec.enrich.matchKey.isSome = true

variable {spec} {options : EnrichDslBuildOptions} {engine : TransformationEngine} {D : Type}
  {gateway : ProviderGateway D} {lib : TextLibrary}

theorem matchKeyOperations_iff {ops : List (EnrichmentOperation D)} :
    spec.matchKeyOperations options = .ok ops ↔ spec.MatchKeyFits options ∧
      ops = spec.enrich.matchKey.toList.map MatchKeySpec.operation := by
  unfold matchKeyOperations MatchKeyFits
  cases spec.enrich.matchKey with
  | some matchKey =>
    constructor
    · intro h
      exact ⟨fun _ => rfl,(Except.ok.inj h).symm⟩
    · rintro ⟨-,rfl⟩
      rfl
  | none =>
    cases options.requireMatchKey with
    | true => simp
    | false =>
      constructor
      · intro h
        exact ⟨nofun,(Except.ok.inj h).symm⟩
      · rintro ⟨-,rfl⟩
        rfl

theorem compileOperations_iff (hcontract : spec.ProviderContract)
    {ops : List (EnrichmentOperation D)} :
    spec.compileOperations options engine gateway lib = .ok ops ↔
      spec.MatchKeyFits options ∧ ∃ lookups generates,
        List.Forall₂ (fun rule op => rule.compileLookup engine gateway lib = .ok op)
          spec.enrich.lookup lookups ∧
        List.Forall₂ (fun rule op =>
          rule.compileGenerate engine gateway lib spec.secretFields = .ok op)
          spec.enrich.generate generates ∧
        ops = spec.enrich.matchKey.toList.map MatchKeySpec.operation ++ lookups ++ generates := by
  have hvalid : spec.rules.forM validateProviderContract = .ok () :=
    forM_ok_iff.mpr fun rule hrule => validateProviderContract_fits (hcontract.fits rule hrule)
  constructor
  · intro h
    obtain ⟨_,_,h⟩ := bind_ok_iff.mp h
    obtain ⟨matchKeys,hmatchKeys,h⟩ := bind_ok_iff.mp h
    obtain ⟨lookups,hlookups,h⟩ := bind_ok_iff.mp h
    obtain ⟨generates,hgenerates,h⟩ := bind_ok_iff.mp h
    obtain ⟨hfits,rfl⟩ := matchKeyOperations_iff.mp hmatchKeys
    exact ⟨hfits,lookups,generates,mapM_ok_iff.mp hlookups,mapM_ok_iff.mp hgenerates,
      (Except.ok.inj h).symm⟩
  · rintro ⟨hfits,lookups,generates,hlookups,hgenerates,rfl⟩
    have hmatchKeys := matchKeyOperations_iff (D := D).mpr ⟨hfits,rfl⟩
    refine bind_ok_iff.mpr ⟨(),hvalid,bind_ok_iff.mpr ⟨_,hmatchKeys,?_⟩⟩
    refine bind_ok_iff.mpr ⟨lookups,mapM_ok_iff.mpr hlookups,?_⟩
    exact bind_ok_iff.mpr ⟨generates,mapM_ok_iff.mpr hgenerates,rfl⟩

theorem buildEnricherSpec_iff {compiled : EnricherSpec D} :
    spec.buildEnricherSpec options engine gateway lib = .ok compiled ↔
      ∃ ops, spec.compileOperations options engine gateway lib = .ok ops ∧
        compiled = { operations := ops } := by
  unfold buildEnricherSpec
  cases spec.compileOperations options engine gateway lib with
  | ok ops => simp [eq_comm]
  | error e => cases e <;> simp

/-- A specification whose providers keep their contract compiles, and to operations of its
meaning, exactly when no rule chooses `if_any` and a required match key is there. -/
theorem compiles_iff (hcontract : spec.ProviderContract) :
    (∃ compiled, spec.buildEnricherSpec options engine gateway lib = .ok compiled ∧
        spec.Realised compiled) ↔
      spec.AvoidsIfAny ∧ spec.MatchKeyFits options := by
  constructor
  · rintro ⟨compiled,hbuild,-⟩
    obtain ⟨ops,hops,-⟩ := buildEnricherSpec_iff.mp hbuild
    obtain ⟨hfits,lookups,generates,hlookups,hgenerates,-⟩ :=
      (compileOperations_iff hcontract).mp hops
    refine ⟨fun rule hrule => ?_,hfits⟩
    rcases List.mem_append.mp hrule with hlookup | hgenerate
    · obtain ⟨op,-,hop⟩ := forall₂_exists_right hlookups rule hlookup
      obtain ⟨_,_,runs,hruns,_⟩ := compileLookup_iff.mp hop
      exact (rule.runWhenErrorsFor_iff.mp hruns).1
    · obtain ⟨op,-,hop⟩ := forall₂_exists_right hgenerates rule hgenerate
      obtain ⟨runs,hruns,_⟩ := compileGenerate_iff.mp hop
      exact (rule.runWhenErrorsFor_iff.mp hruns).1
  · rintro ⟨havoids,hfits⟩
    have hruns (rule : EnrichRule) (h : rule ∈ spec.rules) :
        rule.runWhenErrorsFor = .ok (rule.runWhenErrors.getD .never).policy :=
      rule.runWhenErrorsFor_iff.mpr ⟨havoids rule h,rfl⟩
    obtain ⟨lookups,hlookups⟩ := exists_forall₂ (l := spec.enrich.lookup)
      (R := fun rule op => rule.compileLookup engine gateway lib = .ok op ∧
        rule.Realised .lookup rule.target op) fun rule hrule => by
      obtain ⟨provider,hprovider⟩ := Option.isSome_iff_exists.mp (hcontract.lookup rule hrule)
      exact ⟨_,compileLookup_iff.mpr ⟨provider,hprovider,_,
        hruns rule (List.mem_append_left _ hrule),rfl⟩,lookupOperation_realised rfl⟩
    obtain ⟨generates,hgenerates⟩ := exists_forall₂ (l := spec.enrich.generate)
      (R := fun rule op => rule.compileGenerate engine gateway lib spec.secretFields = .ok op ∧
        rule.Realised .generate (if rule.target ∈ spec.secretFields then
          secretPrefix ++ rule.target else rule.target) op) fun rule hrule =>
      ⟨_,compileGenerate_iff.mpr ⟨_,hruns rule (List.mem_append_right _ hrule),rfl⟩,
        generateOperation_realised rfl⟩
    have hops := (compileOperations_iff hcontract).mpr ⟨hfits,lookups,generates,
      hlookups.imp fun _ _ h => h.1,hgenerates.imp fun _ _ h => h.1,rfl⟩
    exact ⟨_,buildEnricherSpec_iff.mpr ⟨_,hops,rfl⟩,lookups,generates,rfl,
      hlookups.imp fun _ _ h => h.2,hgenerates.imp fun _ _ h => h.2⟩

/-- A login that is generated although the row has errors already. -/
def loginRule (runWhenErrors : RunChoice) : EnrichRule where
  name := "login"
  target := "user_name"
  source := some "email"
  runWhenErrors := some runWhenErrors
  then_when := by simp

def loginSpec (runWhenErrors : RunChoice) : EnrichSpec where
  dataset := "employees"
  enrich := {
    matchKey := some { fields := ["last_name","first_name"] }
    secrets := some ["password"]
    generate := [loginRule runWhenErrors]
    lookup_plain := List.forall_mem_nil _ }

def noProviders : ProviderGateway Unit := ⟨[],[],fun _ _ _ => .ok []⟩

theorem loginSpec_contract (runWhenErrors : RunChoice) :
    (loginSpec runWhenErrors).ProviderContract where
  lookup := List.forall_mem_nil _
  fits rule hrule := by
    obtain rfl := List.mem_singleton.mp hrule
    exact ⟨nofun,nofun⟩

/-- The rule passes the schema and its choice is documented, but the compiler fails on it. -/
theorem if_any_fails : (loginSpec .ifAny).ProviderContract ∧
    (loginSpec .ifAny).buildEnricherSpec {} (fun _ => []) noProviders ⟨id,fun _ _ s => .ok s⟩ =
      .error {
        code := "ENRICH_DSL_COMPILE_INVALID"
        message := "Invalid enrich DSL runtime contract: IF_ANY"
        details := [] } :=
  ⟨loginSpec_contract .ifAny,rfl⟩

theorem compiles_iff_login :
    (∃ compiled, (loginSpec .always).buildEnricherSpec {} (fun _ => []) noProviders
        ⟨id,fun _ _ s => .ok s⟩ = .ok compiled ∧ (loginSpec .always).Realised compiled) ↔
      (loginSpec .always).AvoidsIfAny ∧ (loginSpec .always).MatchKeyFits {} :=
  compiles_iff (loginSpec_contract .always)

end EnrichSpec
end NexusEtl
