import NexusEtl.Library.Fallible
import NexusEtl.TextLines
import NexusEtl.Value
import Mathlib.Data.List.Infix

/-!
# The password gate of the vault commands

A manual vault command asks for the administrator's password and checks it against a hash
that a private file holds. The file, the environment, the prompt and the hasher are given
by what they return or raise. An exception is given by its classes, from its own to the
most general one. When the gate keeps its contract is settled here.
-/

set_option autoImplicit false

namespace NexusEtl
open NexusEtl.Library

structure Raised where
  classes : List String
  message : String := ""
  errno : Option Int := none
  deriving DecidableEq, Repr

namespace Raised

def isA (exc : Raised) (name : String) : Bool := exc.classes.contains name

/-- `type(exc).__name__` -/
def typeName (exc : Raised) : String := exc.classes.headD ""

end Raised

structure GateEvent where
  level : String
  event : String
  fields : Fields
  deriving DecidableEq, Repr

inductive GateError
  | passwordConfig (message : String) (details : Fields)
  | accessDenied (message : String) (details : Fields)
  | escaped (exc : Raised)
  deriving DecidableEq, Repr

/-- What a failing step logs and raises. -/
structure GateFailure where
  logs : List GateEvent
  error : GateError
  deriving DecidableEq, Repr

structure GateReport where
  logs : List GateEvent
  error : Option GateError
  deriving DecidableEq, Repr

def GateFailure.report (failure : GateFailure) : GateReport := ⟨failure.logs,some failure.error⟩

structure FileInfo where
  regular : Bool
  permissions : Nat
  deriving DecidableEq, Repr

/-- The surroundings of one check. -/
structure GateWorld where
  stat : Except Raised FileInfo
  bytes : Except Raised (List UInt8)
  env : Dict String String
  prompt : Except Raised String
  verify : String → String → Except Raised Unit

/-- `VaultAdminPasswordGate`; the path of the file is written as `Path` writes it. -/
structure VaultAdminPasswordGate where
  requireAdminPassword : Bool
  passwordEnvVar : String
  hashName : String
  hashFile : Option String
  deriving DecidableEq, Repr

namespace VaultAdminPasswordGate

def modeName (nonInteractive : Bool) : String :=
  if nonInteractive then "non_interactive" else "interactive"

def failedEvent (level mode reason : String) (fields : Fields) : GateEvent :=
  ⟨level,"vault_admin_password_gate_failed",
    [("reason",.str reason),("mode",.str mode)] ++ fields⟩

def reasonDetails (mode reason : String) (fields : Fields) : Fields :=
  [("reason",.str reason),("mode",.str mode)] ++ fields

def configFailure (mode reason message : String) (logged details : Fields) : GateFailure :=
  ⟨[failedEvent "warning" mode reason logged],
    .passwordConfig message (reasonDetails mode reason details)⟩

def deniedFailure (level mode reason message : String) (logged : Fields) : GateFailure :=
  ⟨[failedEvent level mode reason logged],.accessDenied message (reasonDetails mode reason [])⟩

/-- An exception that no handler turns into one of the two errors. -/
def escapedFailure (exc : Raised) : GateFailure := ⟨[],.escaped exc⟩

def errnoValue : Option Int → Value
  | some errno => .int errno
  | none => .null

def octText (n : Nat) : String := "0o" ++ String.ofList (Nat.toDigits 8 n)

/-! ## The hash file -/

def notConfigured (mode : String) : GateFailure :=
  configFailure mode "admin_password_hash_file_missing"
    "Vault admin password hash file is not configured" [] []

def statFailure (mode path : String) (errno : Option Int) : GateFailure :=
  configFailure mode "admin_password_hash_file_missing"
    "Vault admin password hash file does not exist"
    [("hash_file",.str path),("errno",errnoValue errno)]
    [("hash_file",.str path),("errno",errnoValue errno)]

def notRegularFailure (mode path : String) : GateFailure :=
  configFailure mode "admin_password_hash_file_not_regular"
    "Vault admin password hash path must be a regular file"
    [("hash_file",.str path)] [("hash_file",.str path)]

def tooOpenFailure (mode path : String) (permissions : Nat) : GateFailure :=
  configFailure mode "admin_password_hash_file_permissions_too_open"
    "Vault admin password hash file permissions are too open"
    [("hash_file",.str path),("file_mode",.str (octText permissions))]
    [("hash_file",.str path),("file_mode",.str (octText permissions)),
      ("required",.str "0600 or stricter")]

/-- `_ensure_private_file` -/
def ensurePrivateFile (world : GateWorld) (mode path : String) : Except GateFailure Unit :=
  match world.stat with
  | .error exc =>
    if exc.isA "OSError" then .error (statFailure mode path exc.errno)
    else .error (escapedFailure exc)
  | .ok info =>
    if !info.regular then .error (notRegularFailure mode path)
    else if info.permissions &&& 0o077 ≠ 0 then
      .error (tooOpenFailure mode path info.permissions)
    else .ok ()

def readFailure (mode path : String) (errno : Option Int) : GateFailure :=
  configFailure mode "admin_password_hash_file_read_failed"
    "Vault admin password hash file cannot be read"
    [("hash_file",.str path),("errno",errnoValue errno)]
    [("hash_file",.str path),("errno",errnoValue errno)]

def unicodeDecodeError : Raised :=
  { classes := ["UnicodeDecodeError","UnicodeError","ValueError","Exception","BaseException"] }

/-- `read_text(encoding="utf-8")`; the line ends that it translates split the text alike. -/
def readText (world : GateWorld) (mode path : String) : Except GateFailure String :=
  match world.bytes with
  | .error exc =>
    if exc.isA "OSError" then .error (readFailure mode path exc.errno)
    else .error (escapedFailure exc)
  | .ok bytes =>
    match Text.decodeUtf8 bytes with
    | some content => .ok content
    | none => .error (escapedFailure unicodeDecodeError)

def quotes : List Char := ['\'','"']

def stripOptionalQuotes (value : String) : String :=
  match value.toList with
  | c::d::cs =>
    if (d::cs).getLast? = some c ∧ c ∈ quotes then String.ofList (d::cs).dropLast else value
  | _ => value

/-- `s.partition(sep)` where the separator occurs -/
def partition? (sep : Char) (s : String) : Option (String × String) :=
  if sep ∈ s.toList then
    some (String.ofList (s.toList.takeWhile (· ≠ sep)),
      String.ofList (s.toList.dropWhile (· ≠ sep)).tail)
  else none

def withoutExport (line : String) : String :=
  if Text.hasPrefix "export " line then Text.strip (Text.dropPrefix "export " line) else line

/-- `_extract_env_value` -/
def extractEnvValue (line envVar : String) : Option String :=
  let stripped := Text.strip line
  if stripped = "" ∨ Text.hasPrefix "#" stripped then none
  else match partition? '=' (withoutExport stripped) with
    | none => none
    | some (key,value) =>
      if Text.strip key = envVar then some (stripOptionalQuotes (Text.strip value)) else none

/-- The first value of the name that is not blank. -/
def storedValue (content hashName : String) : Option String :=
  (Text.splitLines content).findSome? fun line =>
    (extractEnvValue line hashName).filter fun value => Text.strip value ≠ ""

def hashMissing (mode path : String) : GateFailure :=
  configFailure mode "admin_password_hash_missing" "Vault admin password hash is missing"
    [("hash_file",.str path)] [("hash_file",.str path)]

/-- `VaultAdminPasswordHashStore.load_hash` -/
def loadHash (gate : VaultAdminPasswordGate) (world : GateWorld) (mode path : String) :
    Except GateFailure String := do
  ensurePrivateFile world mode path
  let content ← readText world mode path
  match storedValue content gate.hashName with
  | some value => .ok value
  | none => .error (hashMissing mode path)

def argon2id : String := "$argon2id$"

def unsupportedAlgorithm (mode : String) : GateFailure :=
  configFailure mode "unsupported_hash_algorithm" "Vault admin password hash must be argon2id"
    [("hash_source",.str "file")]
    [("hash_source",.str "file"),("required_algorithm",.str "argon2id")]

def validatePasswordHash (mode rawHash : String) : Except GateFailure String :=
  if Text.hasPrefix argon2id (Text.strip rawHash) then .ok (Text.strip rawHash)
  else .error (unsupportedAlgorithm mode)

def readPasswordHash (gate : VaultAdminPasswordGate) (world : GateWorld) (mode : String) :
    Except GateFailure String :=
  match gate.hashFile with
  | none => .error (notConfigured mode)
  | some path => loadHash gate world mode path >>= validatePasswordHash mode

/-! ## The password -/

def passwordMissing (mode envVar : String) : GateFailure :=
  configFailure mode "admin_password_missing"
    "Vault admin password is missing in non-interactive mode"
    [("password_env_var",.str envVar)] [("password_env_var",.str envVar)]

def promptFailure (mode typeName : String) : GateFailure :=
  deniedFailure "warning" mode "password_prompt_failed" "Vault admin password prompt failed"
    [("error_type",.str typeName)]

def emptyPassword (mode : String) : GateFailure :=
  deniedFailure "warning" mode "empty_password_input" "Vault admin password cannot be empty" []

def readPassword (gate : VaultAdminPasswordGate) (world : GateWorld) (nonInteractive : Bool) :
    Except GateFailure String :=
  let mode := modeName nonInteractive
  if nonInteractive then
    match Dict.get? world.env gate.passwordEnvVar with
    | some value =>
      if value = "" then .error (passwordMissing mode gate.passwordEnvVar) else .ok value
    | none => .error (passwordMissing mode gate.passwordEnvVar)
  else
    match world.prompt with
    | .error exc =>
      if exc.isA "Exception" then .error (promptFailure mode exc.typeName)
      else .error (escapedFailure exc)
    | .ok value => if value = "" then .error (emptyPassword mode) else .ok value

/-! ## The check -/

def invalidHashMarkers : List String := ["decoding failed","invalid","malformed","hash"]

def isProbableInvalidHashError (exc : Raised) : Bool :=
  let message := Text.lower (Text.strip exc.message)
  invalidHashMarkers.any fun marker => decide (marker.toList <:+: message.toList)

def invalidHash (mode : String) (logged : Fields) : GateFailure :=
  configFailure mode "invalid_password_hash" "Vault admin password hash is invalid" logged []

def verifyFailure (mode : String) (exc : Raised) : GateFailure :=
  if exc.isA "VerifyMismatchError" then
    deniedFailure "warning" mode "password_mismatch" "Vault admin password is invalid" []
  else if !exc.isA "Exception" then escapedFailure exc
  else if exc.isA "InvalidHashError" || exc.isA "InvalidHash" then invalidHash mode []
  else if exc.isA "VerificationError" then
    if isProbableInvalidHashError exc then
      invalidHash mode [("error_type",.str exc.typeName)]
    else deniedFailure "warning" mode "password_verification_failed"
      "Vault admin password verification failed" [("error_type",.str exc.typeName)]
  else deniedFailure "error" mode "password_verification_internal_error"
    "Vault admin password verification failed" [("error_type",.str exc.typeName)]

def verifyPassword (world : GateWorld) (mode hash password : String) :
    Except GateFailure Unit :=
  (world.verify hash password).mapError (verifyFailure mode)

def checkAccess (gate : VaultAdminPasswordGate) (world : GateWorld) (nonInteractive : Bool) :
    Except GateFailure Unit := do
  let hash ← gate.readPasswordHash world (modeName nonInteractive)
  let password ← gate.readPassword world nonInteractive
  verifyPassword world (modeName nonInteractive) hash password

def skippedReport (mode : String) : GateReport :=
  ⟨[⟨"info","vault_admin_password_gate_skipped",
    [("reason",.str "policy_disabled"),("mode",.str mode)]⟩],none⟩

def passedReport (mode : String) : GateReport :=
  ⟨[⟨"info","vault_admin_password_gate_passed",[("mode",.str mode)]⟩],none⟩

def verifyManualAccess (gate : VaultAdminPasswordGate) (world : GateWorld)
    (nonInteractive : Bool) : GateReport :=
  if !gate.requireAdminPassword then skippedReport (modeName nonInteractive)
  else match gate.checkAccess world nonInteractive with
    | .ok () => passedReport (modeName nonInteractive)
    | .error failure => failure.report

/-! ## What the contract says -/

/-- The file holds the hash under the name, in a line of its text. -/
def Holds (content hashName hash : String) : Prop :=
  ∃ line ∈ Text.splitLines content, ∃ value, extractEnvValue line hashName = some value ∧
    Text.strip value = hash ∧ Text.hasPrefix argon2id hash = true

def Given (gate : VaultAdminPasswordGate) (world : GateWorld) (nonInteractive : Bool)
    (password : String) : Prop :=
  password ≠ "" ∧ if nonInteractive then Dict.get? world.env gate.passwordEnvVar = some password
    else world.prompt = .ok password

/-- A regular file on which group and others have no permission. -/
def Private (info : FileInfo) : Prop := info.regular = true ∧ info.permissions &&& 0o077 = 0

/-- The hasher accepted the given password against a hash that the private file holds. -/
def Admitted (gate : VaultAdminPasswordGate) (world : GateWorld) (nonInteractive : Bool) : Prop :=
  ∃ path info bytes content hash password, gate.hashFile = some path ∧ world.stat = .ok info ∧
    Private info ∧ world.bytes = .ok bytes ∧ Text.decodeUtf8 bytes = some content ∧
    Holds content gate.hashName hash ∧ gate.Given world nonInteractive password ∧
    world.verify hash password = .ok ()

/-- What a report may depend on beside the gate and the mode. -/
structure PublicFacts where
  statErrno : Option Int
  permissions : Nat
  readErrno : Option Int
  promptError : String
  verifyError : String

def errnoOf {α : Type} : Except Raised α → Option Int
  | .error exc => exc.errno
  | .ok _ => none

def typeNameOf {α : Type} : Except Raised α → String
  | .error exc => exc.typeName
  | .ok _ => ""

/-- The class of what the hasher raises, where the run asks it. -/
def verifyErrorName (gate : VaultAdminPasswordGate) (world : GateWorld) (nonInteractive : Bool) :
    String :=
  match gate.readPasswordHash world (modeName nonInteractive),
    gate.readPassword world nonInteractive with
  | .ok hash, .ok password => typeNameOf (world.verify hash password)
  | _, _ => ""

def publicFacts (gate : VaultAdminPasswordGate) (world : GateWorld) (nonInteractive : Bool) :
    PublicFacts :=
  { statErrno := errnoOf world.stat
    permissions := match world.stat with
      | .ok info => info.permissions
      | .error _ => 0
    readErrno := errnoOf world.bytes
    promptError := typeNameOf world.prompt
    verifyError := gate.verifyErrorName world nonInteractive }

/-- The failures there are, from the public facts alone. -/
def publicFailures (gate : VaultAdminPasswordGate) (mode : String) (facts : PublicFacts) :
    List GateFailure :=
  let path := gate.hashFile.getD ""
  [notConfigured mode,statFailure mode path facts.statErrno,notRegularFailure mode path,
    tooOpenFailure mode path facts.permissions,readFailure mode path facts.readErrno,
    hashMissing mode path,unsupportedAlgorithm mode,passwordMissing mode gate.passwordEnvVar,
    promptFailure mode facts.promptError,emptyPassword mode,
    deniedFailure "warning" mode "password_mismatch" "Vault admin password is invalid" [],
    invalidHash mode [],invalidHash mode [("error_type",.str facts.verifyError)],
    deniedFailure "warning" mode "password_verification_failed"
      "Vault admin password verification failed" [("error_type",.str facts.verifyError)],
    deniedFailure "error" mode "password_verification_internal_error"
      "Vault admin password verification failed" [("error_type",.str facts.verifyError)]]

def publicReports (gate : VaultAdminPasswordGate) (mode : String) (facts : PublicFacts) :
    List GateReport :=
  skippedReport mode :: passedReport mode ::
    (publicFailures gate mode facts).map GateFailure.report

/-- The gate returns only to the admitted, raises one of its two errors elsewhere, and its
reports are among those that the public facts allow. -/
structure Contract (gate : VaultAdminPasswordGate) (world : GateWorld) (nonInteractive : Bool) :
    Prop where
  admitted : (gate.verifyManualAccess world nonInteractive).error = none →
    gate.requireAdminPassword = false ∨ gate.Admitted world nonInteractive
  raised : ∀ exc, (gate.verifyManualAccess world nonInteractive).error ≠ some (.escaped exc)
  told : gate.verifyManualAccess world nonInteractive ∈
    gate.publicReports (modeName nonInteractive) (gate.publicFacts world nonInteractive)

/-! ## Where exceptions escape -/

/-- A call raises nothing but exceptions of the class. -/
def RaisesOnly {α : Type} (name : String) (result : Except Raised α) : Prop :=
  ∀ exc, result = .error exc → exc.isA name = true

def storedHash (content hashName : String) : Option String :=
  ((storedValue content hashName).map Text.strip).filter fun hash => Text.hasPrefix argon2id hash

/-- The text of the file, where the gate comes to have it. -/
def Reads (world : GateWorld) (content : String) : Prop :=
  ∃ info bytes, world.stat = .ok info ∧ Private info ∧ world.bytes = .ok bytes ∧
    Text.decodeUtf8 bytes = some content

/-- What the gate comes to ask raises only what the gate is prepared for, and the bytes of
a private file that it reads are UTF-8. -/
structure WellBehaved (gate : VaultAdminPasswordGate) (world : GateWorld)
    (nonInteractive : Bool) : Prop where
  stat : RaisesOnly "OSError" world.stat
  bytes : ∀ info, world.stat = .ok info → Private info → RaisesOnly "OSError" world.bytes
  utf8 : ∀ info bytes, world.stat = .ok info → Private info → world.bytes = .ok bytes →
    Text.decodeUtf8 bytes ≠ none
  prompt : nonInteractive = false → ∀ content hash, Reads world content →
    storedHash content gate.hashName = some hash → RaisesOnly "Exception" world.prompt
  verify : ∀ content hash password, Reads world content →
    storedHash content gate.hashName = some hash → gate.Given world nonInteractive password →
    ∀ exc, world.verify hash password = .error exc →
      exc.isA "VerifyMismatchError" = true ∨ exc.isA "Exception" = true

/-! ## Escapes, step by step -/

/-- The step ends in an exception that is none of the two errors. -/
def Escapes {α : Type} (x : Except GateFailure α) : Prop :=
  ∃ failure exc, x = .error failure ∧ failure.error = .escaped exc

@[simp] theorem configFailure_error (mode reason message : String) (logged details : Fields) :
    (configFailure mode reason message logged details).error =
      .passwordConfig message (reasonDetails mode reason details) := rfl

@[simp] theorem deniedFailure_error (level mode reason message : String) (logged : Fields) :
    (deniedFailure level mode reason message logged).error =
      .accessDenied message (reasonDetails mode reason []) := rfl

@[simp] theorem escapedFailure_error (exc : Raised) :
    (escapedFailure exc).error = .escaped exc := rfl

section
variable {α β : Type}

@[simp] theorem not_escapes_ok (a : α) : ¬ Escapes (.ok a : Except GateFailure α) := by
  rintro ⟨failure,exc,h,_⟩
  cases h

@[simp] theorem escapes_error (failure : GateFailure) :
    Escapes (.error failure : Except GateFailure α) ↔ ∃ exc, failure.error = .escaped exc := by
  simp [Escapes]

theorem escapes_bind {x : Except GateFailure α} {f : α → Except GateFailure β} :
    Escapes (x >>= f) ↔ Escapes x ∨ ∃ a, x = .ok a ∧ Escapes (f a) := by
  cases x with
  | ok a => simp [bind, Except.bind]
  | error failure => simp [bind, Except.bind]

theorem not_raisesOnly {name : String} {result : Except Raised α} :
    ¬ RaisesOnly name result ↔ ∃ exc, result = .error exc ∧ exc.isA name = false := by
  simp [RaisesOnly]

end

variable {gate : VaultAdminPasswordGate} {world : GateWorld} {nonInteractive : Bool}
  {mode path : String}

theorem ensurePrivateFile_ok :
    ensurePrivateFile world mode path = .ok () ↔
      ∃ info, world.stat = .ok info ∧ Private info := by
  unfold ensurePrivateFile
  cases world.stat with
  | error exc =>
    dsimp only
    split <;> simp
  | ok info =>
    dsimp only
    split
    · simp_all [Private]
    · split <;> simp_all [Private]

theorem escapes_ensurePrivateFile :
    Escapes (ensurePrivateFile world mode path) ↔ ¬ RaisesOnly "OSError" world.stat := by
  rw [not_raisesOnly]
  unfold ensurePrivateFile
  cases world.stat with
  | error exc =>
    dsimp only
    split
    · simp_all [statFailure]
    · simp_all
  | ok info =>
    dsimp only
    split
    · simp [notRegularFailure]
    · split
      · simp [tooOpenFailure]
      · simp

theorem readText_ok {content : String} :
    readText world mode path = .ok content ↔
      ∃ bytes, world.bytes = .ok bytes ∧ Text.decodeUtf8 bytes = some content := by
  unfold readText
  cases world.bytes with
  | error exc =>
    dsimp only
    split <;> simp
  | ok bytes =>
    dsimp only
    cases hdecode : Text.decodeUtf8 bytes with
    | none => simp [hdecode]
    | some found => simp [hdecode]

theorem escapes_readText :
    Escapes (readText world mode path) ↔ ¬ RaisesOnly "OSError" world.bytes ∨
      ∃ bytes, world.bytes = .ok bytes ∧ Text.decodeUtf8 bytes = none := by
  rw [not_raisesOnly]
  unfold readText
  cases world.bytes with
  | error exc =>
    dsimp only
    split
    · simp_all [readFailure]
    · simp_all
  | ok bytes =>
    dsimp only
    cases hdecode : Text.decodeUtf8 bytes with
    | none => simp [hdecode]
    | some found => simp [hdecode]

theorem reads_iff {content : String} :
    Reads world content ↔
      ensurePrivateFile world mode path = .ok () ∧ readText world mode path = .ok content := by
  rw [ensurePrivateFile_ok, readText_ok]
  constructor
  · rintro ⟨info,bytes,hstat,hprivate,hbytes,hcontent⟩
    exact ⟨⟨info,hstat,hprivate⟩,bytes,hbytes,hcontent⟩
  · rintro ⟨⟨info,hstat,hprivate⟩,bytes,hbytes,hcontent⟩
    exact ⟨info,bytes,hstat,hprivate,hbytes,hcontent⟩

theorem validatePasswordHash_ok {rawHash hash : String} :
    validatePasswordHash mode rawHash = .ok hash ↔
      Text.strip rawHash = hash ∧ Text.hasPrefix argon2id hash = true := by
  unfold validatePasswordHash
  split
  · rename_i h
    rw [Except.ok.injEq]
    exact ⟨fun heq => ⟨heq,heq ▸ h⟩,And.left⟩
  · rename_i h
    refine iff_of_false (by simp) ?_
    rintro ⟨rfl,hbcrypt⟩
    exact h hbcrypt

theorem readPasswordHash_ok (hpath : gate.hashFile = some path) {hash : String} :
    gate.readPasswordHash world mode = .ok hash ↔
      ∃ content, Reads world content ∧ storedHash content gate.hashName = some hash := by
  rw [readPasswordHash, hpath]
  simp only [loadHash, bind_ok_iff, validatePasswordHash_ok]
  constructor
  · rintro ⟨value,⟨_,hensure,content,hread,hvalue⟩,hhash,hbcrypt⟩
    refine ⟨content,reads_iff.mpr ⟨hensure,hread⟩,?_⟩
    cases hstored : storedValue content gate.hashName with
    | none => rw [hstored] at hvalue; cases hvalue
    | some found =>
      rw [hstored] at hvalue
      obtain rfl := Except.ok.inj hvalue
      rw [storedHash, hstored, Option.map_some, hhash, Option.filter_some, if_pos hbcrypt]
  · rintro ⟨content,hreads,hstored⟩
    obtain ⟨hensure,hread⟩ := (@reads_iff world mode path content).mp hreads
    rw [storedHash, Option.filter_eq_some_iff, Option.map_eq_some_iff] at hstored
    obtain ⟨⟨value,hvalue,hhash⟩,hbcrypt⟩ := hstored
    refine ⟨value,⟨(),hensure,content,hread,?_⟩,hhash,hbcrypt⟩
    rw [hvalue]

theorem escapes_readPasswordHash (hpath : gate.hashFile = some path) :
    Escapes (gate.readPasswordHash world mode) ↔ ¬ RaisesOnly "OSError" world.stat ∨
      ∃ info, world.stat = .ok info ∧ Private info ∧ (¬ RaisesOnly "OSError" world.bytes ∨
        ∃ bytes, world.bytes = .ok bytes ∧ Text.decodeUtf8 bytes = none) := by
  have hstored (content : String) : ¬ Escapes (match storedValue content gate.hashName with
      | some value => .ok value
      | none => .error (hashMissing mode path)) := by
    cases storedValue content gate.hashName with
    | none => simp [hashMissing]
    | some value => simp
  have hvalidate (rawHash : String) : ¬ Escapes (validatePasswordHash mode rawHash) := by
    unfold validatePasswordHash
    split
    · simp
    · simp [unsupportedAlgorithm]
  rw [readPasswordHash, hpath]
  simp only [loadHash, escapes_bind, escapes_ensurePrivateFile, escapes_readText, hstored,
    hvalidate, and_false, exists_false, or_false]
  constructor
  · rintro (h | ⟨_,hensure,h⟩)
    · exact .inl h
    · obtain ⟨info,hstat,hprivate⟩ := ensurePrivateFile_ok.mp hensure
      exact .inr ⟨info,hstat,hprivate,h⟩
  · rintro (h | ⟨info,hstat,hprivate,h⟩)
    · exact .inl h
    · exact .inr ⟨(),ensurePrivateFile_ok.mpr ⟨info,hstat,hprivate⟩,h⟩

theorem readPassword_ok {password : String} :
    gate.readPassword world nonInteractive = .ok password ↔
      gate.Given world nonInteractive password := by
  unfold readPassword Given
  cases nonInteractive with
  | false =>
    cases world.prompt with
    | error exc =>
      simp only [Bool.false_eq_true, if_false]
      split <;> simp
    | ok value =>
      simp only [Bool.false_eq_true, if_false]
      split <;> grind
  | true =>
    cases Dict.get? world.env gate.passwordEnvVar with
    | none => simp
    | some value =>
      simp only [if_true]
      split <;> grind

theorem escapes_readPassword :
    Escapes (gate.readPassword world nonInteractive) ↔
      nonInteractive = false ∧ ¬ RaisesOnly "Exception" world.prompt := by
  rw [not_raisesOnly]
  unfold readPassword
  cases nonInteractive with
  | false =>
    cases world.prompt with
    | error exc =>
      simp only [Bool.false_eq_true, if_false]
      split
      · simp_all [promptFailure]
      · simp_all
    | ok value =>
      simp only [Bool.false_eq_true, if_false]
      split
      · simp [emptyPassword]
      · simp
  | true =>
    cases Dict.get? world.env gate.passwordEnvVar with
    | none => simp [passwordMissing]
    | some value =>
      simp only [if_true]
      split
      · simp [passwordMissing]
      · simp

theorem verifyFailure_escaped {exc : Raised} :
    (∃ other, (verifyFailure mode exc).error = .escaped other) ↔
      exc.isA "VerifyMismatchError" = false ∧ exc.isA "Exception" = false := by
  unfold verifyFailure
  split
  · simp_all
  · split
    · simp_all
    · split
      · simp_all [invalidHash]
      · split
        · split
          · simp_all [invalidHash]
          · simp_all
        · simp_all

theorem escapes_verifyPassword {hash password : String} :
    Escapes (verifyPassword world mode hash password) ↔
      ∃ exc, world.verify hash password = .error exc ∧
        exc.isA "VerifyMismatchError" = false ∧ exc.isA "Exception" = false := by
  unfold verifyPassword
  cases world.verify hash password with
  | ok _ => simp [Except.mapError]
  | error exc => simp [Except.mapError, verifyFailure_escaped]

/-- An enabled gate with a configured file lets an exception through exactly where what it
asks does not behave. -/
theorem escapes_checkAccess (hpath : gate.hashFile = some path) :
    Escapes (gate.checkAccess world nonInteractive) ↔ ¬ gate.WellBehaved world nonInteractive := by
  simp only [checkAccess, escapes_bind, escapes_readPasswordHash hpath, readPasswordHash_ok hpath,
    escapes_readPassword, readPassword_ok, escapes_verifyPassword]
  constructor
  · rintro ((h | ⟨info,hstat,hprivate,h | ⟨bytes,hbytes,hdecode⟩⟩) |
      ⟨hash,⟨content,hreads,hstored⟩,⟨hmode,h⟩ | ⟨password,hgiven,exc,hexc,hmismatch,hexception⟩⟩)
      hwell
    · exact h hwell.stat
    · exact h (hwell.bytes info hstat hprivate)
    · exact hwell.utf8 info bytes hstat hprivate hbytes hdecode
    · exact h (hwell.prompt hmode content hash hreads hstored)
    · rcases hwell.verify content hash password hreads hstored hgiven exc hexc with h | h
      · rw [h] at hmismatch; cases hmismatch
      · rw [h] at hexception; cases hexception
  · intro hnot
    by_contra hno
    simp only [not_or, not_exists, not_and, not_not] at hno
    obtain ⟨⟨hstat,hread⟩,hrest⟩ := hno
    refine hnot ⟨hstat,fun info hinfo hprivate => (hread info hinfo hprivate).1,
      fun info bytes hinfo hprivate hbytes => (hread info hinfo hprivate).2 bytes hbytes,
      fun hmode content hash hreads hstored =>
        (hrest hash ⟨content,hreads,hstored⟩).1 hmode,
      fun content hash password hreads hstored hgiven exc hexc => ?_⟩
    by_contra hne
    rw [not_or, Bool.not_eq_true, Bool.not_eq_true] at hne
    exact (hrest hash ⟨content,hreads,hstored⟩).2 password hgiven exc hexc hne.1 hne.2

/-! ## What is told, step by step -/

/-- A failure of the step is one of the public ones, or an exception escapes. -/
def Tells {α : Type} (failures : List GateFailure) (x : Except GateFailure α) : Prop :=
  ∀ failure, x = .error failure → (∃ exc, failure.error = .escaped exc) ∨ failure ∈ failures

section
variable {α β : Type} {failures : List GateFailure}

theorem tells_ok (a : α) : Tells failures (.ok a) := by
  rintro failure h
  cases h

theorem tells_escaped (exc : Raised) :
    Tells failures (.error (escapedFailure exc) : Except GateFailure α) := by
  rintro failure h
  cases h
  exact .inl ⟨exc,rfl⟩

theorem tells_mem {failure : GateFailure} (h : failure ∈ failures) :
    Tells failures (.error failure : Except GateFailure α) := by
  rintro other hother
  cases hother
  exact .inr h

theorem tells_bind {x : Except GateFailure α} {f : α → Except GateFailure β}
    (hx : Tells failures x) (hf : ∀ a, x = .ok a → Tells failures (f a)) :
    Tells failures (x >>= f) := by
  cases x with
  | ok a => exact hf a rfl
  | error failure => exact fun other hother => hx other (by cases hother; rfl)

end

theorem tells_readPasswordHash (facts : PublicFacts)
    (hstat : facts.statErrno = errnoOf world.stat)
    (hperm : ∀ info, world.stat = .ok info → facts.permissions = info.permissions)
    (hread : facts.readErrno = errnoOf world.bytes) :
    Tells (gate.publicFailures mode facts) (gate.readPasswordHash world mode) := by
  unfold readPasswordHash
  cases hpath : gate.hashFile with
  | none => exact tells_mem (by simp [publicFailures])
  | some path =>
    refine tells_bind (tells_bind ?_ fun _ _ => tells_bind ?_ fun content _ => ?_)
      fun rawHash _ => ?_
    · unfold ensurePrivateFile
      cases hworld : world.stat with
      | error exc =>
        dsimp only
        split
        · exact tells_mem (by simp [publicFailures, hpath, hstat, hworld, errnoOf])
        · exact tells_escaped exc
      | ok info =>
        dsimp only
        split
        · exact tells_mem (by simp [publicFailures, hpath])
        · split
          · exact tells_mem (by simp [publicFailures, hpath, hperm info hworld])
          · exact tells_ok ()
    · unfold readText
      cases hworld : world.bytes with
      | error exc =>
        dsimp only
        split
        · exact tells_mem (by simp [publicFailures, hpath, hread, hworld, errnoOf])
        · exact tells_escaped exc
      | ok bytes =>
        dsimp only
        split
        · exact tells_ok _
        · exact tells_escaped _
    · split
      · exact tells_ok _
      · exact tells_mem (by simp [publicFailures, hpath])
    · unfold validatePasswordHash
      split
      · exact tells_ok _
      · exact tells_mem (by simp [publicFailures])

theorem tells_readPassword (facts : PublicFacts)
    (hprompt : facts.promptError = typeNameOf world.prompt) :
    Tells (gate.publicFailures (modeName nonInteractive) facts)
      (gate.readPassword world nonInteractive) := by
  unfold readPassword
  cases nonInteractive with
  | true =>
    simp only [if_true]
    split
    · split
      · exact tells_mem (by simp [publicFailures])
      · exact tells_ok _
    · exact tells_mem (by simp [publicFailures])
  | false =>
    simp only [Bool.false_eq_true, if_false]
    cases hworld : world.prompt with
    | error exc =>
      dsimp only
      split
      · exact tells_mem (by simp [publicFailures, hprompt, hworld, typeNameOf])
      · exact tells_escaped exc
    | ok value =>
      dsimp only
      split
      · exact tells_mem (by simp [publicFailures])
      · exact tells_ok _

theorem tells_verifyPassword (facts : PublicFacts) {hash password : String}
    (hverify : facts.verifyError = typeNameOf (world.verify hash password)) :
    Tells (gate.publicFailures mode facts) (verifyPassword world mode hash password) := by
  unfold verifyPassword
  cases hworld : world.verify hash password with
  | ok _ => exact tells_ok _
  | error exc =>
    have hname : facts.verifyError = exc.typeName := by rw [hverify, hworld, typeNameOf]
    rw [Except.mapError, verifyFailure]
    split
    · exact tells_mem (by simp [publicFailures])
    · split
      · exact tells_escaped exc
      · split
        · exact tells_mem (by simp [publicFailures])
        · split
          · split
            · exact tells_mem (by simp [publicFailures, hname])
            · exact tells_mem (by simp [publicFailures, hname])
          · exact tells_mem (by simp [publicFailures, hname])

/-- Reports are made from the public facts, unless an exception escapes. -/
theorem tells_checkAccess (gate : VaultAdminPasswordGate) (world : GateWorld)
    (nonInteractive : Bool) :
    Tells (gate.publicFailures (modeName nonInteractive) (gate.publicFacts world nonInteractive))
      (gate.checkAccess world nonInteractive) := by
  refine tells_bind ?_ fun hash hhash => tells_bind ?_ fun password hpassword => ?_
  · exact tells_readPasswordHash _ rfl (fun info h => by rw [publicFacts, h]) rfl
  · exact tells_readPassword _ rfl
  · refine tells_verifyPassword _ ?_
    rw [publicFacts, verifyErrorName, hhash, hpassword]

theorem holds_of_storedHash {content hashName hash : String}
    (h : storedHash content hashName = some hash) : Holds content hashName hash := by
  rw [storedHash, Option.filter_eq_some_iff, Option.map_eq_some_iff] at h
  obtain ⟨⟨value,hvalue,hhash⟩,hbcrypt⟩ := h
  obtain ⟨line,hline,hextract⟩ := List.exists_of_findSome?_eq_some hvalue
  rw [Option.filter_eq_some_iff] at hextract
  exact ⟨line,hline,value,hextract.1,hhash,hbcrypt⟩

theorem admitted_of_checkAccess (h : gate.checkAccess world nonInteractive = .ok ()) :
    gate.Admitted world nonInteractive := by
  obtain ⟨hash,hhash,h⟩ := bind_ok_iff.mp h
  obtain ⟨password,hpassword,h⟩ := bind_ok_iff.mp h
  cases hpath : gate.hashFile with
  | none => rw [readPasswordHash, hpath] at hhash; cases hhash
  | some path =>
    obtain ⟨content,⟨info,bytes,hstat,hprivate,hbytes,hdecode⟩,hstored⟩ :=
      (readPasswordHash_ok hpath).mp hhash
    refine ⟨path,info,bytes,content,hash,password,hpath,hstat,hprivate,hbytes,hdecode,
      holds_of_storedHash hstored,readPassword_ok.mp hpassword,?_⟩
    rw [verifyPassword] at h
    cases hverify : world.verify hash password with
    | ok _ => rfl
    | error exc => rw [hverify] at h; cases h

theorem verifyManualAccess_admitted
    (h : (gate.verifyManualAccess world nonInteractive).error = none) :
    gate.requireAdminPassword = false ∨ gate.Admitted world nonInteractive := by
  rw [verifyManualAccess] at h
  split at h
  · rename_i hdisabled
    exact .inl (by simpa using hdisabled)
  · split at h
    · exact .inr (admitted_of_checkAccess ‹_›)
    · cases h

theorem verifyManualAccess_told
    (h : ∀ exc, (gate.verifyManualAccess world nonInteractive).error ≠ some (.escaped exc)) :
    gate.verifyManualAccess world nonInteractive ∈
      gate.publicReports (modeName nonInteractive) (gate.publicFacts world nonInteractive) := by
  have htells := tells_checkAccess gate world nonInteractive
  rw [verifyManualAccess] at h ⊢
  split
  · exact List.mem_cons_self
  · rw [if_neg ‹_›] at h
    cases hcheck : gate.checkAccess world nonInteractive with
    | ok _ => exact List.mem_cons_of_mem _ List.mem_cons_self
    | error failure =>
      rw [hcheck] at h
      rcases htells failure hcheck with ⟨exc,hexc⟩ | hmem
      · exact absurd (congrArg some hexc) (h exc)
      · exact List.mem_cons_of_mem _ (List.mem_cons_of_mem _ (List.mem_map_of_mem hmem))

/-- An escape of the check is one of the gate when the policy enables it. -/
theorem verifyManualAccess_escaped :
    (∃ exc, (gate.verifyManualAccess world nonInteractive).error = some (.escaped exc)) ↔
      gate.requireAdminPassword = true ∧ Escapes (gate.checkAccess world nonInteractive) := by
  rw [verifyManualAccess]
  cases gate.requireAdminPassword with
  | false => simp [skippedReport]
  | true =>
    cases gate.checkAccess world nonInteractive with
    | ok _ => simp [passedReport]
    | error failure => simp [GateFailure.report]

end VaultAdminPasswordGate

open VaultAdminPasswordGate in
/-- The gate keeps its contract exactly when, with the check enabled and a file configured,
everything it asks raises only what it is prepared for and the file is UTF-8. -/
theorem gate_contract_iff (gate : VaultAdminPasswordGate) (world : GateWorld)
    (nonInteractive : Bool) :
    gate.Contract world nonInteractive ↔ (gate.requireAdminPassword = true →
      gate.hashFile ≠ none → gate.WellBehaved world nonInteractive) := by
  have hraised : (∀ exc, (gate.verifyManualAccess world nonInteractive).error ≠
      some (.escaped exc)) ↔ (gate.requireAdminPassword = true →
        gate.hashFile ≠ none → gate.WellBehaved world nonInteractive) := by
    rw [← not_exists, verifyManualAccess_escaped, not_and]
    refine imp_congr_right fun _ => ?_
    cases hpath : gate.hashFile with
    | none =>
      refine iff_of_true ?_ (fun h => absurd rfl h)
      rw [checkAccess, readPasswordHash, hpath]
      rintro ⟨failure,exc,h,hexc⟩
      cases h
      cases hexc
    | some path =>
      rw [escapes_checkAccess hpath, not_not]
      exact ⟨fun h _ => h,fun h => h (Option.some_ne_none path)⟩
  constructor
  · exact fun h => hraised.mp h.raised
  · exact fun h => ⟨verifyManualAccess_admitted,hraised.mpr h,
      verifyManualAccess_told (hraised.mpr h)⟩

open VaultAdminPasswordGate in
/-- A byte that is not UTF-8 in the private hash file escapes as `UnicodeDecodeError`. -/
theorem undecodable_hash_file :
    ¬ (VaultAdminPasswordGate.mk true "ADMIN_PASSWORD" "ANKEY_VAULT_ADMIN_PASSWORD_HASH"
        (some "admin.hash")).Contract
      { stat := .ok ⟨true,0o600⟩, bytes := .ok [0xff], env := [("ADMIN_PASSWORD","secret")]
        prompt := .ok "secret", verify := fun _ _ => .ok () } true := by
  intro h
  exact h.raised unicodeDecodeError (by decide)

end NexusEtl
