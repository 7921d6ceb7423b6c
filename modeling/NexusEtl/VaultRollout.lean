import NexusEtl.EnrichDsl
import NexusEtl.Planning

/-!
# Whether a command works with the vault

Planning needs the vault when the dataset declares secrets, apply when the plan lists secret
fields. The runtime mode turns the need into a request, and the rollout policy grants or denies
it: by its mode, and in the canary mode by the dataset and a bucket of the run.
-/

set_option autoImplicit false

namespace NexusEtl
open NexusEtl.Library

inductive VaultMode
  | auto | on | off
  deriving DecidableEq, Repr

def VaultMode.value : VaultMode → String
  | .auto => "auto"
  | .on => "on"
  | .off => "off"

inductive RuntimeReason
  | modeOn | modeOff | autoWithSecrets | autoWithoutSecrets | invalidMode
  deriving DecidableEq, Repr

structure VaultRuntimeModeDecision where
  mode : VaultMode
  requestedVault : Bool
  requiresVault : Bool
  explicitMode : Bool
  reason : RuntimeReason
  deriving DecidableEq, Repr

/-- `_normalize_mode`: the mode, and whether the text is one. -/
def normalizeVaultMode : Option String → VaultMode × Bool
  | none => (.auto,true)
  | some text =>
    match [VaultMode.auto,.on,.off].find? fun m => m.value == Text.lower (Text.strip text) with
    | some mode => (mode,true)
    | none => (.auto,false)

def resolveVaultRuntimeMode (mode : Option String) (requiresVault : Bool) :
    VaultRuntimeModeDecision :=
  let decide (mode' : VaultMode) (requested : Bool) (reason : RuntimeReason) :
      VaultRuntimeModeDecision := ⟨mode',requested,requiresVault,mode.isSome,reason⟩
  match normalizeVaultMode mode with
  | (normalized,false) => decide normalized false .invalidMode
  | (.on,true) => decide .on true .modeOn
  | (.off,true) => decide .off false .modeOff
  | (.auto,true) => decide .auto requiresVault
      (if requiresVault then .autoWithSecrets else .autoWithoutSecrets)

inductive RolloutMode
  | off | stagingDryRun | canary | full
  deriving DecidableEq, Repr

def RolloutMode.value : RolloutMode → String
  | .off => "off"
  | .stagingDryRun => "staging_dry_run"
  | .canary => "canary"
  | .full => "full"

inductive RolloutReason
  | notRequested | modeOff | full | stagingDryRun
  | canaryEnabled | canaryDatasetFiltered | canaryPercentZero | canaryBucketFiltered
  deriving DecidableEq, Repr

def RolloutReason.value : RolloutReason → String
  | .notRequested => "vault_not_requested"
  | .modeOff => "rollout_mode_off"
  | .full => "rollout_full_enabled"
  | .stagingDryRun => "rollout_staging_dry_run"
  | .canaryEnabled => "rollout_canary_selected"
  | .canaryDatasetFiltered => "rollout_canary_dataset_filtered"
  | .canaryPercentZero => "rollout_canary_percent_zero"
  | .canaryBucketFiltered => "rollout_canary_bucket_filtered"

structure VaultRolloutPolicySettings where
  mode : String := "full"
  canaryPercent : Int := 100
  canaryDatasets : List String := []
  canarySeed : String := "vault-rollout-v1"
  deriving DecidableEq, Repr

structure VaultRolloutDecision where
  requestedVault : Bool
  mode : RolloutMode
  reason : RolloutReason
  vaultEnabled : Bool := false
  startupGuardRequired : Bool := false
  forceDryRun : Bool := false
  canaryBucket : Option Nat := none
  canarySelected : Option Bool := none
  deriving DecidableEq, Repr

namespace VaultRolloutPolicySettings

variable (settings : VaultRolloutPolicySettings)

def normalizeMode : RolloutMode :=
  ([RolloutMode.off,.stagingDryRun,.canary,.full].find? fun m =>
    m.value == Text.lower (Text.strip settings.mode)).getD .off

def isDatasetAllowed (dataset : Option String) : Bool :=
  if settings.canaryDatasets = [] then true
  else if settings.canaryDatasets.contains "*" then true
  else match dataset.filter (· ≠ "") with
    | none => false
    | some name => settings.canaryDatasets.contains name

/-- The text that is hashed for a run. -/
def canaryText (dataset runId : Option String) : String :=
  let shown (text : Option String) := (text.filter (· ≠ "")).getD "<none>"
  settings.canarySeed ++ "|" ++ shown dataset ++ "|" ++ shown runId

/-- The number `digest` is the one that the first eight digits of the hash stand for. -/
def computeCanaryBucket (digest : String → Nat) (dataset runId : Option String) : Nat :=
  digest (settings.canaryText dataset runId) % 100

def evaluateCanaryRollout (digest : String → Nat) (dataset runId : Option String) :
    VaultRolloutDecision :=
  if settings.isDatasetAllowed dataset = false then
    { requestedVault := true, mode := .canary, canarySelected := some false
      reason := .canaryDatasetFiltered }
  else if settings.canaryPercent ≤ 0 then
    { requestedVault := true, mode := .canary, canaryBucket := some 0
      canarySelected := some false, reason := .canaryPercentZero }
  else
    let bucket := settings.computeCanaryBucket digest dataset runId
    let selected := decide ((bucket : Int) < settings.canaryPercent)
    { requestedVault := true, mode := .canary, vaultEnabled := selected
      startupGuardRequired := selected, canaryBucket := some bucket
      canarySelected := some selected
      reason := if selected then .canaryEnabled else .canaryBucketFiltered }

def evaluateVaultRollout (digest : String → Nat) (requestedVault : Bool)
    (dataset runId : Option String) (commandName : String) : VaultRolloutDecision :=
  if requestedVault = false then
    { requestedVault := false, mode := settings.normalizeMode, reason := .notRequested }
  else match settings.normalizeMode with
    | .off => { requestedVault := true, mode := .off, canarySelected := some false
                reason := .modeOff }
    | .full => { requestedVault := true, mode := .full, vaultEnabled := true
                 startupGuardRequired := true, reason := .full }
    | .stagingDryRun =>
      { requestedVault := true, mode := .stagingDryRun, vaultEnabled := true
        startupGuardRequired := true, forceDryRun := commandName == "import-apply"
        reason := .stagingDryRun }
    | .canary => settings.evaluateCanaryRollout digest dataset runId

end VaultRolloutPolicySettings

/-- `_dataset_requires_vault` -/
def EnrichSpec.datasetRequiresVault (spec : EnrichSpec) : Bool :=
  (spec.enrich.secrets.getD []).any (fun field => Text.strip field != "") ||
    (spec.enrich.generate ++ spec.enrich.lookup).any fun rule =>
      Text.hasPrefix "secret:" (Text.strip rule.target)

/-- `_plan_requires_vault` -/
def planRequiresVault (items : List PlanItem) : Bool :=
  items.any fun item => !item.secretFields.isEmpty

/-! ## The gate of a command -/

/-- A command that asks for the vault; the second text names what needs it. -/
structure GatedCommand where
  name : String
  subject : String
  deriving DecidableEq, Repr

def importPlanGate : GatedCommand := ⟨"import-plan","dataset declares secret fields"⟩

def importApplyGate : GatedCommand := ⟨"import-apply","plan contains secret_fields"⟩

/-- What the command asks of the policy, and for which run. -/
structure VaultRequest where
  mode : Option String
  requiresVault : Bool
  dataset : Option String
  runId : Option String
  deriving DecidableEq, Repr

namespace GatedCommand

variable (command : GatedCommand) (settings : VaultRolloutPolicySettings) (digest : String → Nat)

def rolloutOf (request : VaultRequest) : VaultRolloutDecision :=
  settings.evaluateVaultRollout digest
    (resolveVaultRuntimeMode request.mode request.requiresVault).requestedVault
    request.dataset request.runId command.name

/-- The line for the user when the command stops here. -/
def refusal (request : VaultRequest) : Option String :=
  let decision := resolveVaultRuntimeMode request.mode request.requiresVault
  let rollout := command.rolloutOf settings digest request
  if decision.reason = .invalidMode then
    some "ERROR: unsupported --vault-mode, expected one of: auto|on|off"
  else if decision.mode = .off ∧ decision.requiresVault = true then
    some ("ERROR: vault-mode=off cannot be used because " ++ command.subject)
  else if decision.requestedVault = true ∧ rollout.vaultEnabled = false then
    some ("ERROR: vault rollout policy blocks " ++ command.name ++ " vault path (mode=" ++
      rollout.mode.value ++ ", reason=" ++ rollout.reason.value ++ ")")
  else none

end GatedCommand

/-- The decision with its forced dry run replaced. -/
def VaultRolloutDecision.forcing (decision : VaultRolloutDecision) (force : Bool) :
    VaultRolloutDecision := { decision with forceDryRun := force }

theorem VaultRolloutDecision.forcing_self {decision : VaultRolloutDecision} {force : Bool}
    (h : decision.forceDryRun = force) : decision.forcing force = decision := by
  subst h
  rfl

namespace VaultRolloutPolicySettings

variable {settings : VaultRolloutPolicySettings} {digest : String → Nat}
  {dataset runId : Option String}

theorem evaluateCanaryRollout_forces :
    (settings.evaluateCanaryRollout digest dataset runId).forceDryRun = false := by
  unfold evaluateCanaryRollout
  split_ifs <;> rfl

/-- What the two commands are told about one run differs in the forced dry run alone. -/
theorem evaluateVaultRollout_command (requested : Bool) (a b : String) :
    settings.evaluateVaultRollout digest requested dataset runId b =
      (settings.evaluateVaultRollout digest requested dataset runId a).forcing
        (requested && settings.normalizeMode == .stagingDryRun && b == "import-apply") := by
  cases requested with
  | false => simp [evaluateVaultRollout, VaultRolloutDecision.forcing]
  | true =>
    have hcanary := VaultRolloutDecision.forcing_self
      (@evaluateCanaryRollout_forces settings digest dataset runId)
    cases hmode : settings.normalizeMode with
    | off => simp [evaluateVaultRollout, hmode, VaultRolloutDecision.forcing]
    | stagingDryRun => simp [evaluateVaultRollout, hmode, VaultRolloutDecision.forcing]
    | canary =>
      have hother : (RolloutMode.canary == RolloutMode.stagingDryRun) = false := by decide
      simp [evaluateVaultRollout, hmode, hother, hcanary]
    | full => simp [evaluateVaultRollout, hmode, VaultRolloutDecision.forcing]

end VaultRolloutPolicySettings
end NexusEtl
