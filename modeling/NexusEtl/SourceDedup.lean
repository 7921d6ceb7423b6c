import NexusEtl.MatchCore
import NexusEtl.Library.Runs

/-!
# Source deduplication and the match stage

A store remembers the fingerprint under which a key was first seen. The local
store keeps one dictionary for a run; the scoped store also consults a state
that outlives the run. A later row with a known key loses its row.
-/

set_option autoImplicit false

namespace NexusEtl
open NexusEtl.Library

/-- `LocalSourceDedupStore`, or `ScopedSourceDedupStore` when there is a shared state. -/
structure DedupStore where
  seen : Dict String String
  shared : Option (Dict String String)
  deriving DecidableEq, Repr

inductive DedupOutcome
  | first | duplicate | conflict
  deriving DecidableEq, Repr

/-- The answer to a key of which a fingerprint, or none, is known. -/
def DedupOutcome.judge : Option String → String → DedupOutcome
  | none, _ => .first
  | some seen, fingerprint => if seen = fingerprint then .duplicate else .conflict

theorem DedupOutcome.judge_some (seen fingerprint : String) :
    DedupOutcome.judge (some seen) fingerprint ≠ .first := by
  rw [judge]
  split <;> simp

namespace DedupStore

def find? (store : DedupStore) (key : String) : Option String :=
  match Dict.get? store.seen key with
  | some fingerprint => some fingerprint
  | none => store.shared.bind fun state => Dict.get? state key

def register (store : DedupStore) (key fingerprint : String) : DedupStore :=
  { seen := Dict.set store.seen key fingerprint
    shared := store.shared.map fun state => Dict.set state key fingerprint }

def checkAndRegister (store : DedupStore) (key fingerprint : String) :
    DedupOutcome × DedupStore :=
  match store.find? key with
  | none => (.first,store.register key fingerprint)
  | some seen => (if seen = fingerprint then .duplicate else .conflict,store)

def reset (store : DedupStore) : DedupStore := { store with seen := [] }

theorem checkAndRegister_judge (store : DedupStore) (key fingerprint : String) :
    (store.checkAndRegister key fingerprint).1 =
      DedupOutcome.judge (store.find? key) fingerprint := by
  unfold checkAndRegister
  cases store.find? key <;> rfl

/-- A check registers its key unless the store already had it. -/
theorem find?_checkAndRegister (store : DedupStore) (key fingerprint other : String) :
    (store.checkAndRegister key fingerprint).2.find? other =
      (store.find? other).or (Dict.get? [(key,fingerprint)] other) := by
  unfold checkAndRegister
  cases h : store.find? key with
  | none =>
    by_cases hk : key = other
    · subst hk
      rw [h]
      simp [find?, register, Dict.get?]
    · have hsame : (store.register key fingerprint).find? other = store.find? other := by
        cases hs : store.shared <;> simp [find?, register, Dict.get?_set_ne _ _ hk, hs]
      simp [hsame, Dict.get?, hk]
  | some seen =>
    by_cases hk : key = other
    · subst hk
      simp [h]
    · simp [Dict.get?, hk]

/-- A key is known to the store. -/
def Knows (store : DedupStore) (key : String) : Prop := (store.find? key).isSome

theorem knows_register (store : DedupStore) (key fingerprint : String) :
    (store.register key fingerprint).Knows key := by
  simp [Knows, find?, register]

theorem Knows.register {store : DedupStore} {key : String} (h : store.Knows key)
    (other fingerprint : String) : (store.register other fingerprint).Knows key := by
  by_cases hk : other = key
  · exact hk ▸ store.knows_register other fingerprint
  · simp only [Knows, find?, DedupStore.register, Dict.get?_set_ne _ _ hk] at h ⊢
    split
    · simp
    · rename_i hnone
      rw [hnone] at h
      obtain ⟨shared,hshared⟩ : ∃ d, store.shared = some d := by
        cases hs : store.shared with
        | none => simp [hs] at h
        | some d => exact ⟨d,rfl⟩
      simpa [hshared, Dict.get?_set_ne _ _ hk] using h

/-- A check answers `first` only for an unknown key, and then the key is known. -/
theorem checkAndRegister_spec (store : DedupStore) (key fingerprint : String) :
    ((store.checkAndRegister key fingerprint).1 = .first → ¬ store.Knows key) ∧
      (store.checkAndRegister key fingerprint).2.Knows key ∧
      ∀ other, store.Knows other → (store.checkAndRegister key fingerprint).2.Knows other := by
  unfold checkAndRegister
  cases h : store.find? key with
  | none =>
    exact ⟨fun _ => by simp [Knows, h],store.knows_register key fingerprint,
      fun other ho => ho.register key fingerprint⟩
  | some seen =>
    refine ⟨fun hf => ?_,by simp [Knows, h],fun _ ho => ho⟩
    dsimp only at hf
    split at hf <;> cases hf

end DedupStore

/-- `_build_source_dedup_key`: the stripped primary name and value, when both are there. -/
def buildSourceDedupKey (identity : Identity) : Option String :=
  let primary := Text.strip identity.primary
  let value := Text.strip identity.primaryValue
  if value = "" ∨ primary = "" then none else some (primary ++ ":" ++ value)

def dropMatchedRow (matched : TransformResult MatchedRow) (reason : String)
    (warns errs : List DiagnosticItem) : TransformResult MatchedRow :=
  { matched with
    row := none
    metadata := Dict.set matched.metadata "match_drop_reason" (.str reason)
    errors := matched.errors ++ errs
    warnings := matched.warnings ++ warns }

namespace MatchCore

variable (core : MatchCore)

def duplicateWarning (row : MatchedRow) : DiagnosticItem :=
  diagWarning core.catalog .matching "MATCH_DUPLICATE_SOURCE" (some row.identity.primary)
    (some "duplicate row in source batch") (some row.rowRef) none none

def conflictWarning (row : MatchedRow) : DiagnosticItem :=
  diagWarning core.catalog .matching "MATCH_CONFLICT_SOURCE" (some row.identity.primary)
    (some "conflicting rows in source batch") (some row.rowRef) none none

def conflictError (row : MatchedRow) : DiagnosticItem :=
  diagError core.catalog .matching "MATCH_CONFLICT_SOURCE" (some row.identity.primary)
    (some "conflicting rows in source batch") (some row.rowRef) none

/-- What happens to a matched row once the store has answered. -/
def applyOutcome (matched : TransformResult MatchedRow) (row : MatchedRow) :
    DedupOutcome → TransformResult MatchedRow
  | .first => matched
  | .duplicate => dropMatchedRow matched "duplicate_source" [core.duplicateWarning row] []
  | .conflict => match core.matchingRules.sourceDedup.onConflict with
    | .warn => dropMatchedRow matched "conflict_source" [core.conflictWarning row] []
    | .error => dropMatchedRow matched "conflict_source" [] [core.conflictError row]

def dedup (store : DedupStore) (matched : TransformResult MatchedRow) :
    TransformResult MatchedRow × DedupStore :=
  match matched.row with
  | none => (matched,store)
  | some row =>
    if !core.matchingRules.sourceDedup.enabled then (matched,store)
    else match buildSourceDedupKey row.identity with
      | none => (matched,store)
      | some key =>
        let checked := store.checkAndRegister key row.fingerprint
        (core.applyOutcome matched row checked.1,checked.2)

def matchWithSourceDedup (store : DedupStore) (enriched : TransformResult Fields) :
    Except PyException (TransformResult MatchedRow × DedupStore) := do
  let matched ← core.matchRow enriched
  return core.dedup store matched

end MatchCore

def matchStage (core : MatchCore) (catalog : ErrorCatalog) (store : DedupStore)
    (enriched : TransformResult Fields) : TransformResult MatchedRow × DedupStore :=
  if enriched.row.isNone then (enriched.withoutRow,store)
  else match core.matchWithSourceDedup store enriched with
    | .error exc => (enriched.dropRow
        [translateException catalog .matching exc enriched.rowRef],store)
    | .ok result => result

/-- `MatchStage.run` over a stream, which it cuts into batches and joins again. -/
def matchStream (core : MatchCore) (catalog : ErrorCatalog) :
    DedupStore → List (TransformResult Fields) → List (TransformResult MatchedRow)
  | _, [] => []
  | store, enriched::rest =>
    let (matched,store) := matchStage core catalog store enriched
    matched::matchStream core catalog store rest

section Stream

variable (core : MatchCore) (catalog : ErrorCatalog)

/-- The store after some rows of a run. -/
def storeAfter (store : DedupStore) (earlier : List (TransformResult Fields)) : DedupStore :=
  run (fun store enriched => (matchStage core catalog store enriched).2) store earlier

/-- Each row is matched against the store that the rows before it left. -/
theorem matchStream_get (store : DedupStore) (stream : List (TransformResult Fields)) (i : Nat) :
    (matchStream core catalog store stream)[i]? = stream[i]?.map fun enriched =>
      (matchStage core catalog (storeAfter core catalog store (stream.take i)) enriched).1 := by
  induction stream generalizing store i with
  | nil => simp [matchStream]
  | cons enriched rest ih =>
    cases i with
    | zero => simp [matchStream, storeAfter, run]
    | succ i => simpa [matchStream, storeAfter, run] using ih _ i

end Stream

/-- The key under which a result with a row was compared. -/
def rowKey (r : TransformResult MatchedRow) : Option String :=
  r.row.bind fun row => buildSourceDedupKey row.identity

namespace MatchCore

variable (core : MatchCore)

/-- What the store's answer leaves of a matched row: all of it, or no row and at most
errors of the match stage. -/
theorem applyOutcome_spec (matched : TransformResult MatchedRow) (row : MatchedRow)
    (outcome : DedupOutcome) :
    (outcome = .first ∧ core.applyOutcome matched row outcome = matched) ∨
      (outcome ≠ .first ∧ (core.applyOutcome matched row outcome).row = none ∧
        ∃ added, (core.applyOutcome matched row outcome).errors = matched.errors ++ added ∧
          ∀ e ∈ added, e.stage = .matching) := by
  cases outcome with
  | first => exact .inl ⟨rfl,rfl⟩
  | duplicate => exact .inr ⟨by simp,rfl,[],by simp [applyOutcome, dropMatchedRow],by simp⟩
  | conflict =>
    refine .inr ⟨by simp,?_⟩
    cases hc : core.matchingRules.sourceDedup.onConflict with
    | warn => exact ⟨by simp [applyOutcome, hc, dropMatchedRow],[],
        by simp [applyOutcome, hc, dropMatchedRow],by simp⟩
    | error => exact ⟨by simp [applyOutcome, hc, dropMatchedRow],[core.conflictError row],
        by simp [applyOutcome, hc, dropMatchedRow],by simp [conflictError]⟩

/-- A row that passes the check brings a key the store did not know and now knows. -/
theorem dedup_key (store : DedupStore) (matched : TransformResult MatchedRow)
    (he : core.matchingRules.sourceDedup.enabled = true) :
    (∀ key, rowKey (core.dedup store matched).1 = some key →
      ¬ store.Knows key ∧ (core.dedup store matched).2.Knows key) ∧
      ∀ key, store.Knows key → (core.dedup store matched).2.Knows key := by
  unfold dedup
  split
  · rename_i h
    exact ⟨by simp [rowKey, h],fun _ h => h⟩
  · rename_i row h
    simp only [he, Bool.not_true, Bool.false_eq_true, if_false]
    split
    · rename_i hk
      exact ⟨by simp [rowKey, h, hk],fun _ h => h⟩
    · rename_i key hk
      obtain ⟨hfirst,hknown,hkeep⟩ := store.checkAndRegister_spec key row.fingerprint
      refine ⟨fun other hother => ?_,hkeep⟩
      rcases core.applyOutcome_spec matched row
          (store.checkAndRegister key row.fingerprint).1 with ⟨hf,heq⟩ | ⟨_,hnone,_⟩
      · rw [heq, rowKey, h, Option.bind_some, hk, Option.some.injEq] at hother
        subst hother
        exact ⟨hfirst hf,hknown⟩
      · simp [rowKey, hnone] at hother

theorem dedup_errors (store : DedupStore) (matched : TransformResult MatchedRow) :
    ∃ added, (core.dedup store matched).1.errors = matched.errors ++ added ∧
      (∀ e ∈ added, e.stage = .matching) ∧
      ((core.dedup store matched).1.row.isSome → matched.row.isSome ∧ added = []) := by
  unfold dedup
  split
  · exact ⟨[],by simp,by simp,fun h => ⟨h,rfl⟩⟩
  · split
    · exact ⟨[],by simp,by simp,fun h => ⟨h,rfl⟩⟩
    · split
      · exact ⟨[],by simp,by simp,fun h => ⟨h,rfl⟩⟩
      · rename_i row hrow _ _ key _
        rcases core.applyOutcome_spec matched row
            (store.checkAndRegister key row.fingerprint).1 with
          ⟨_,heq⟩ | ⟨_,hnone,added,herrors,hs⟩
        · exact ⟨[],by simp [heq],by simp,fun _ => ⟨by simp [hrow],rfl⟩⟩
        · exact ⟨added,herrors,hs,fun h => by simp [hnone] at h⟩

end MatchCore

/-- One row through the match stage: its errors are kept, new ones are of this stage and
come with the loss of the row. -/
theorem matchStage_errors (core : MatchCore) (catalog : ErrorCatalog) (store : DedupStore)
    (enriched : TransformResult Fields) :
    ∃ added, (matchStage core catalog store enriched).1.errors = enriched.errors ++ added ∧
      (∀ e ∈ added, e.stage = .matching) ∧
      ((matchStage core catalog store enriched).1.row.isSome →
        enriched.row.isSome ∧ added = []) := by
  unfold matchStage
  split
  · exact ⟨[],by simp,by simp,by simp⟩
  · rename_i hrow
    split
    · exact ⟨_,rfl,by simp,by simp⟩
    · rename_i result h
      simp only [MatchCore.matchWithSourceDedup, bind, Except.bind, pure, Except.pure] at h
      split at h
      · cases h
      · rename_i matched hm
        cases h
        obtain ⟨first,hfirst,hs,hnone⟩ := core.matchRow_errors hm
        obtain ⟨second,hsecond,hs',hnone'⟩ := core.dedup_errors store matched
        refine ⟨first ++ second,by rw [hsecond, hfirst, List.append_assoc],?_,fun hkept => ?_⟩
        · intro e he
          rcases List.mem_append.mp he with he | he
          · exact hs e he
          · exact hs' e he
        · obtain ⟨hmatched,rfl⟩ := hnone' hkept
          exact ⟨by simpa [Option.isSome_iff_ne_none] using hrow,by simp [hnone hmatched]⟩

theorem matchStage_key (core : MatchCore) (catalog : ErrorCatalog) (store : DedupStore)
    (enriched : TransformResult Fields)
    (he : core.matchingRules.sourceDedup.enabled = true) :
    (∀ key, rowKey (matchStage core catalog store enriched).1 = some key →
      ¬ store.Knows key ∧ (matchStage core catalog store enriched).2.Knows key) ∧
      ∀ key, store.Knows key → (matchStage core catalog store enriched).2.Knows key := by
  unfold matchStage
  split
  · exact ⟨by simp [rowKey],fun _ h => h⟩
  · split
    · exact ⟨by simp [rowKey],fun _ h => h⟩
    · rename_i result h
      simp only [MatchCore.matchWithSourceDedup, bind, Except.bind, pure, Except.pure] at h
      split at h
      · cases h
      · cases h
        exact core.dedup_key store _ he

/-- The rows that leave the match stage of a run have pairwise different keys, none of
which the store knew before. -/
theorem matchStream_keys (core : MatchCore) (catalog : ErrorCatalog) (store : DedupStore)
    (stream : List (TransformResult Fields))
    (he : core.matchingRules.sourceDedup.enabled = true) :
    ((matchStream core catalog store stream).filterMap rowKey).Nodup ∧
      ∀ key ∈ (matchStream core catalog store stream).filterMap rowKey, ¬ store.Knows key := by
  induction stream generalizing store with
  | nil => simp [matchStream]
  | cons enriched rest ih =>
    obtain ⟨hkey,hkeep⟩ := matchStage_key core catalog store enriched he
    obtain ⟨hnodup,hfresh⟩ := ih (matchStage core catalog store enriched).2
    simp only [matchStream, List.filterMap_cons]
    cases hk : rowKey (matchStage core catalog store enriched).1 with
    | none => exact ⟨hnodup,fun key hmem hknown => hfresh key hmem (hkeep key hknown)⟩
    | some key =>
      obtain ⟨hnew,hknows⟩ := hkey key hk
      refine ⟨List.nodup_cons.mpr ⟨fun hmem => hfresh key hmem hknows,hnodup⟩,?_⟩
      intro other hother
      rcases List.mem_cons.mp hother with rfl | hother
      · exact hnew
      · exact fun hknown => hfresh other hother (hkeep other hknown)

end NexusEtl
