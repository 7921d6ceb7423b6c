import NexusEtl.DuplicateRows

/-!
# Source deduplication over a run

The match stage cuts its stream into micro-batches by size and by time and hands
the rows on one by one. A run starts from a store that was reset; what a scope
holds from before stays. The first row of a key is to keep its row, and a later
one to lose it with a diagnostic of the severity that the policies ask for.
-/

set_option autoImplicit false

namespace NexusEtl
open NexusEtl.Library

section MicroBatches

variable {T : Type}

/-- An open batch and the reading of the clock when it was opened. -/
structure MicroBatch (T : Type) where
  items : List T
  openedAt : Option Rat

/-- `int((now - opened_at) * 1000)`, which truncates. -/
def elapsedMs (openedAt now : Rat) : Int :=
  let ms := (now - openedAt)*1000
  ms.num.tdiv ms.den

def MicroBatch.flushDue (batch : MicroBatch T) (interval : Int) (now : Rat) : Bool :=
  match batch.openedAt with
  | some openedAt => !batch.items.isEmpty && decide (0 < interval) &&
      decide (interval ≤ elapsedMs openedAt now)
  | none => false

/-- The loop of `iter_micro_batches`; the clock is read once for each item. -/
def microBatchesFrom (size : Nat) (interval : Int) (clock : Nat → Rat) :
    Nat → MicroBatch T → List T → List (List T)
  | _, batch, [] => if batch.items.isEmpty then [] else [batch.items]
  | reading, batch, item::items =>
    let due := batch.flushDue interval (clock reading)
    let kept := if due then [] else batch.items
    let openedAt := if kept.isEmpty then some (clock reading) else batch.openedAt
    let grown := kept ++ [item]
    let rest := if size ≤ grown.length then
        grown::microBatchesFrom size interval clock (reading+1) ⟨[],none⟩ items
      else microBatchesFrom size interval clock (reading+1) ⟨grown,openedAt⟩ items
    if due then batch.items::rest else rest

def iterMicroBatches (batchSize flushIntervalMs : Int) (clock : Nat → Rat) (source : List T) :
    List (List T) :=
  microBatchesFrom (if 0 < batchSize then batchSize.toNat else 1)
    (if 0 < flushIntervalMs then flushIntervalMs else 0) clock 0 ⟨[],none⟩ source

theorem microBatchesFrom_flatten (size : Nat) (interval : Int) (clock : Nat → Rat)
    (reading : Nat) (batch : MicroBatch T) (items : List T) :
    (microBatchesFrom size interval clock reading batch items).flatten =
      batch.items ++ items := by
  induction items generalizing reading batch with
  | nil =>
    rw [microBatchesFrom, List.append_nil]
    split
    · rename_i h
      simp [List.isEmpty_iff.mp h]
    · simp
  | cons item items ih =>
    simp only [microBatchesFrom]
    split <;> split <;> simp [ih]

/-- The batches are a splitting of the source, whatever the settings and the clock. -/
theorem iterMicroBatches_flatten (batchSize flushIntervalMs : Int) (clock : Nat → Rat)
    (source : List T) :
    (iterMicroBatches batchSize flushIntervalMs clock source).flatten = source :=
  microBatchesFrom_flatten _ _ clock 0 ⟨[],none⟩ source

end MicroBatches

structure MatchBatchSettings where
  batchSize : Int := 500
  flushIntervalMs : Int := 500
  deriving DecidableEq, Repr

section Stage

variable (core : MatchCore) (catalog : ErrorCatalog)

def matchBatch : DedupStore → List (TransformResult Fields) →
    List (TransformResult MatchedRow) × DedupStore
  | store, [] => ([],store)
  | store, enriched::batch =>
    let (matched,store) := matchStage core catalog store enriched
    let (results,store) := matchBatch store batch
    (matched::results,store)

def matchBatches : DedupStore → List (List (TransformResult Fields)) →
    List (TransformResult MatchedRow)
  | _, [] => []
  | store, batch::batches =>
    let (results,store) := matchBatch core catalog store batch
    results ++ matchBatches store batches

/-- `MatchStage.run`. -/
def matchStageRun (settings : MatchBatchSettings) (clock : Nat → Rat) (store : DedupStore)
    (source : List (TransformResult Fields)) : List (TransformResult MatchedRow) :=
  matchBatches core catalog store
    (iterMicroBatches settings.batchSize settings.flushIntervalMs clock source)

theorem matchStream_append (store : DedupStore) (batch rest : List (TransformResult Fields)) :
    matchStream core catalog store (batch ++ rest) =
      (matchBatch core catalog store batch).1 ++
        matchStream core catalog (matchBatch core catalog store batch).2 rest := by
  induction batch generalizing store with
  | nil => rfl
  | cons enriched batch ih =>
    simp only [List.cons_append, matchStream, matchBatch]
    rw [ih]

/-- Where the batches are cut makes no difference. -/
theorem matchBatches_eq (store : DedupStore) (batches : List (List (TransformResult Fields))) :
    matchBatches core catalog store batches = matchStream core catalog store batches.flatten := by
  induction batches generalizing store with
  | nil => rfl
  | cons batch batches ih =>
    rw [List.flatten_cons, matchStream_append, ← ih]
    rfl

end Stage

namespace MatchCore

variable (core : MatchCore) (catalog : ErrorCatalog)

/-- A source row that the matcher matches under a key. -/
structure Keyed (enriched : TransformResult Fields) (matched : TransformResult MatchedRow)
    (row : MatchedRow) (key : String) : Prop where
  found : core.matchRow enriched = .ok matched
  kept : matched.row = some row
  named : buildSourceDedupKey row.identity = some key

/-- The key and the fingerprint under which a source row is compared. -/
def keyedRow (enriched : TransformResult Fields) : Option (String × String) :=
  (core.matchRow enriched).toOption.bind fun matched => matched.row.bind fun row =>
    (buildSourceDedupKey row.identity).map fun key => (key,row.fingerprint)

/-- The fingerprint of the first of the earlier rows with the key. -/
def seenIn (earlier : List (TransformResult Fields)) (key : String) : Option String :=
  Dict.get? (earlier.filterMap core.keyedRow) key

variable {core}

theorem Keyed.keyedRow {enriched : TransformResult Fields}
    {matched : TransformResult MatchedRow} {row : MatchedRow} {key : String}
    (h : core.Keyed enriched matched row key) :
    core.keyedRow enriched = some (key,row.fingerprint) := by
  simp [MatchCore.keyedRow, h.found, h.kept, h.named, Except.toOption]

theorem keyed_of_keyedRow {enriched : TransformResult Fields} {key fingerprint : String}
    (h : core.keyedRow enriched = some (key,fingerprint)) :
    ∃ matched row, core.Keyed enriched matched row key ∧ row.fingerprint = fingerprint := by
  obtain ⟨matched,hm,h⟩ := Option.bind_eq_some_iff.mp h
  obtain ⟨row,hrow,h⟩ := Option.bind_eq_some_iff.mp h
  obtain ⟨k,hk,h⟩ := Option.map_eq_some_iff.mp h
  obtain ⟨rfl,rfl⟩ := Prod.mk.inj h
  refine ⟨matched,row,⟨?_,hrow,hk⟩,rfl⟩
  cases hr : core.matchRow enriched with
  | error exc => simp [hr, Except.toOption] at hm
  | ok m =>
    simp only [hr, Except.toOption, Option.some.injEq] at hm
    rw [hm]

theorem Keyed.row_isSome {enriched : TransformResult Fields}
    {matched : TransformResult MatchedRow} {row : MatchedRow} {key : String}
    (h : core.Keyed enriched matched row key) : enriched.row.isNone = false :=
  isNone_of_matched h.found (by rw [h.kept]; rfl)

/-- A row with a key is judged by what the store knows of it. -/
theorem Keyed.stage {enriched : TransformResult Fields}
    {matched : TransformResult MatchedRow} {row : MatchedRow} {key : String}
    (h : core.Keyed enriched matched row key)
    (he : core.matchingRules.sourceDedup.enabled = true) (store : DedupStore) :
    matchStage core catalog store enriched =
      (core.applyOutcome matched row (store.checkAndRegister key row.fingerprint).1,
        (store.checkAndRegister key row.fingerprint).2) := by
  simp [matchStage, h.row_isSome, matchWithSourceDedup, h.found, dedup, h.kept, h.named, he,
    bind, Except.bind, pure, Except.pure]

/-- A row without a key leaves the store alone and is not judged by it. -/
theorem stage_unkeyed {enriched : TransformResult Fields} (h : core.keyedRow enriched = none)
    (store : DedupStore) :
    matchStage core catalog store enriched =
      ((matchStage core catalog ⟨[],none⟩ enriched).1,store) := by
  unfold matchStage
  cases hr : enriched.row with
  | none => rfl
  | some _ =>
    cases hm : core.matchRow enriched with
    | error exc => simp [matchWithSourceDedup, hm, bind, Except.bind]
    | ok matched =>
      have hdedup : ∀ s, core.dedup s matched = (matched,s) := by
        intro s
        unfold dedup
        cases hrow : matched.row with
        | none => rfl
        | some row =>
          have hk : buildSourceDedupKey row.identity = none := by
            simpa [keyedRow, hm, Except.toOption, hrow] using h
          simp [hk]
      simp [matchWithSourceDedup, hm, hdedup, bind, Except.bind, pure, Except.pure]

theorem find?_matchStage (he : core.matchingRules.sourceDedup.enabled = true)
    (store : DedupStore) (enriched : TransformResult Fields) (key : String) :
    (matchStage core catalog store enriched).2.find? key =
      (store.find? key).or (core.seenIn [enriched] key) := by
  cases hk : core.keyedRow enriched with
  | none =>
    rw [stage_unkeyed catalog hk]
    simp [seenIn, hk]
  | some keyed =>
    obtain ⟨k,fingerprint⟩ := keyed
    obtain ⟨matched,row,hkeyed,rfl⟩ := keyed_of_keyedRow hk
    rw [hkeyed.stage catalog he, DedupStore.find?_checkAndRegister]
    simp [seenIn, hk]

/-- After some rows the store knows what it knew before, and of other keys the first row. -/
theorem find?_storeAfter (he : core.matchingRules.sourceDedup.enabled = true)
    (store : DedupStore) (earlier : List (TransformResult Fields)) (key : String) :
    (storeAfter core catalog store earlier).find? key =
      (store.find? key).or (core.seenIn earlier key) := by
  induction earlier generalizing store with
  | nil => simp [storeAfter, run, seenIn]
  | cons enriched earlier ih =>
    have hsplit : core.seenIn (enriched::earlier) key =
        (core.seenIn [enriched] key).or (core.seenIn earlier key) := by
      rw [seenIn, seenIn, seenIn, ← Dict.get?_append, ← List.filterMap_append]
      rfl
    have hrest := ih (matchStage core catalog store enriched).2
    rw [find?_matchStage catalog he, Option.or_assoc, ← hsplit] at hrest
    exact hrest

end MatchCore

/-- The severity that a policy asks for. -/
def OnError.severity : OnError → DiagnosticSeverity
  | .error => .error
  | .warn => .warning

/-- The row is gone, with one diagnostic of the severity that the policy asks for. -/
def Flagged (policy : OnError) (code : String) (matched result : TransformResult MatchedRow) :
    Prop :=
  result.row = none ∧ ∃ item : DiagnosticItem, item.code = code ∧
    item.severity = policy.severity ∧
    match policy with
    | .warn => result.warnings = matched.warnings ++ [item] ∧ result.errors = matched.errors
    | .error => result.errors = matched.errors ++ [item] ∧ result.warnings = matched.warnings

/-- The first row of a key keeps its row; a later one loses it under the policy for its
fingerprint, the same as that of the first or another. -/
structure Deduplicated (core : MatchCore) (stream : List (TransformResult Fields))
    (results : List (TransformResult MatchedRow)) : Prop where
  first : ∀ i enriched matched row key, stream[i]? = some enriched →
    core.Keyed enriched matched row key → core.seenIn (stream.take i) key = none →
      results[i]? = some matched
  duplicate : ∀ i enriched matched row key, stream[i]? = some enriched →
    core.Keyed enriched matched row key →
    core.seenIn (stream.take i) key = some row.fingerprint →
      ∃ result, results[i]? = some result ∧
        Flagged core.matchingRules.sourceDedup.onDuplicate "MATCH_DUPLICATE_SOURCE" matched result
  conflict : ∀ i enriched matched row key seen, stream[i]? = some enriched →
    core.Keyed enriched matched row key → core.seenIn (stream.take i) key = some seen →
    seen ≠ row.fingerprint →
      ∃ result, results[i]? = some result ∧
        Flagged core.matchingRules.sourceDedup.onConflict "MATCH_CONFLICT_SOURCE" matched result

/-- A stream is deduplicated however it is cut and whichever store is used: the local one or
one over a scope. -/
structure DedupRun (core : MatchCore) (catalog : ErrorCatalog) (scope : Dict String String)
    (stream : List (TransformResult Fields)) : Prop where
  deduplicated : ∀ batches, batches.flatten = stream → ∀ store : DedupStore,
    store.shared = none ∨ store.shared = some scope →
      Deduplicated core stream (matchBatches core catalog store.reset batches)
  independent : ∀ batches, batches.flatten = stream → ∀ store : DedupStore,
    store.shared = none ∨ store.shared = some scope →
      matchBatches core catalog store.reset batches = matchBatches core catalog ⟨[],none⟩ [stream]
  staged : ∀ settings clock, ∀ store : DedupStore,
    store.shared = none ∨ store.shared = some scope →
      matchStageRun core catalog settings clock store.reset stream =
        matchBatches core catalog ⟨[],none⟩ [stream]

/-- A duplicate meets the policy that warns, diagnostics get the severity that was asked for,
and the scope holds no key of the stream. -/
structure PoliciesMet (core : MatchCore) (scope : Dict String String)
    (stream : List (TransformResult Fields)) : Prop where
  duplicate : ∀ (i : Nat) enriched key fingerprint, stream[i]? = some enriched →
    core.keyedRow enriched = some (key,fingerprint) →
    core.seenIn (stream.take i) key = some fingerprint →
      core.matchingRules.sourceDedup.onDuplicate = .warn ∧
        core.catalog.resolveSeverity "MATCH_DUPLICATE_SOURCE" none .warning = .warning
  conflict : ∀ (i : Nat) enriched key fingerprint seen, stream[i]? = some enriched →
    core.keyedRow enriched = some (key,fingerprint) →
    core.seenIn (stream.take i) key = some seen → seen ≠ fingerprint →
      core.catalog.resolveSeverity "MATCH_CONFLICT_SOURCE" none
        core.matchingRules.sourceDedup.onConflict.severity =
          core.matchingRules.sourceDedup.onConflict.severity
  fresh : ∀ enriched ∈ stream, ∀ key fingerprint,
    core.keyedRow enriched = some (key,fingerprint) → Dict.get? scope key = none

namespace MatchCore

variable {core : MatchCore} (catalog : ErrorCatalog)

theorem flagged_duplicate_iff (policy : OnError) (matched : TransformResult MatchedRow)
    (row : MatchedRow) :
    Flagged policy "MATCH_DUPLICATE_SOURCE" matched (core.applyOutcome matched row .duplicate) ↔
      policy = .warn ∧
        core.catalog.resolveSeverity "MATCH_DUPLICATE_SOURCE" none .warning = .warning := by
  cases policy with
  | warn =>
    constructor
    · rintro ⟨_,item,_,hs,hw,_⟩
      obtain rfl : core.duplicateWarning row = item := by
        simpa [applyOutcome, dropMatchedRow] using hw
      exact ⟨rfl,hs⟩
    · rintro ⟨_,hs⟩
      exact ⟨rfl,core.duplicateWarning row,rfl,hs,rfl,by simp [applyOutcome, dropMatchedRow]⟩
  | error =>
    constructor
    · rintro ⟨_,item,_,_,he,_⟩
      simp [applyOutcome, dropMatchedRow] at he
    · rintro ⟨h,_⟩
      cases h

theorem flagged_conflict_iff (matched : TransformResult MatchedRow) (row : MatchedRow) :
    Flagged core.matchingRules.sourceDedup.onConflict "MATCH_CONFLICT_SOURCE" matched
        (core.applyOutcome matched row .conflict) ↔
      core.catalog.resolveSeverity "MATCH_CONFLICT_SOURCE" none
        core.matchingRules.sourceDedup.onConflict.severity =
          core.matchingRules.sourceDedup.onConflict.severity := by
  cases hc : core.matchingRules.sourceDedup.onConflict with
  | warn =>
    constructor
    · rintro ⟨_,item,_,hs,hw,_⟩
      obtain rfl : core.conflictWarning row = item := by
        simpa [applyOutcome, hc, dropMatchedRow] using hw
      exact hs
    · intro hs
      exact ⟨by simp [applyOutcome, hc, dropMatchedRow],core.conflictWarning row,rfl,hs,
        by simp [applyOutcome, hc, dropMatchedRow],by simp [applyOutcome, hc, dropMatchedRow]⟩
  | error =>
    constructor
    · rintro ⟨_,item,_,hs,he,_⟩
      obtain rfl : core.conflictError row = item := by
        simpa [applyOutcome, hc, dropMatchedRow] using he
      exact hs
    · intro hs
      exact ⟨by simp [applyOutcome, hc, dropMatchedRow],core.conflictError row,rfl,hs,
        by simp [applyOutcome, hc, dropMatchedRow],by simp [applyOutcome, hc, dropMatchedRow]⟩

/-- The result of a row with a key, from what the store knew at first and the rows before. -/
theorem Keyed.result {stream : List (TransformResult Fields)} {i : Nat}
    {enriched : TransformResult Fields} {matched : TransformResult MatchedRow}
    {row : MatchedRow} {key : String} (h : core.Keyed enriched matched row key)
    (he : core.matchingRules.sourceDedup.enabled = true) (hi : stream[i]? = some enriched)
    (store : DedupStore) :
    (matchStream core catalog store stream)[i]? = some (core.applyOutcome matched row
      (DedupOutcome.judge ((store.find? key).or (core.seenIn (stream.take i) key))
        row.fingerprint)) := by
  rw [matchStream_get, hi, Option.map_some, h.stage catalog he,
    DedupStore.checkAndRegister_judge, find?_storeAfter catalog he]

/-- With a local store only the rows before count. -/
theorem Keyed.local_result {stream : List (TransformResult Fields)} {i : Nat}
    {enriched : TransformResult Fields} {matched : TransformResult MatchedRow}
    {row : MatchedRow} {key : String} (h : core.Keyed enriched matched row key)
    (he : core.matchingRules.sourceDedup.enabled = true) (hi : stream[i]? = some enriched) :
    (matchBatches core catalog (DedupStore.reset ⟨[],none⟩) [stream])[i]? =
      some (core.applyOutcome matched row
        (DedupOutcome.judge (core.seenIn (stream.take i) key) row.fingerprint)) := by
  rw [matchBatches_eq, List.flatten_singleton, h.result catalog he hi]
  simp [DedupStore.find?, DedupStore.reset]

/-- Two stores that know the same of the keys of a stream give the same results. -/
theorem matchStream_congr (he : core.matchingRules.sourceDedup.enabled = true)
    (stream : List (TransformResult Fields)) (store store' : DedupStore)
    (h : ∀ enriched ∈ stream, ∀ key fingerprint,
      core.keyedRow enriched = some (key,fingerprint) → store.find? key = store'.find? key) :
    matchStream core catalog store stream = matchStream core catalog store' stream := by
  apply List.ext_getElem?
  intro i
  cases hi : stream[i]? with
  | none => rw [matchStream_get, matchStream_get, hi, Option.map_none, Option.map_none]
  | some enriched =>
    cases hk : core.keyedRow enriched with
    | none =>
      rw [matchStream_get, matchStream_get, hi, Option.map_some, Option.map_some,
        stage_unkeyed catalog hk, stage_unkeyed catalog hk (storeAfter core catalog store' _)]
    | some keyed =>
      obtain ⟨key,fingerprint⟩ := keyed
      obtain ⟨matched,row,hkeyed,rfl⟩ := keyed_of_keyedRow hk
      rw [hkeyed.result catalog he hi, hkeyed.result catalog he hi,
        h enriched (List.mem_of_getElem? hi) key row.fingerprint hk]

/-- A key of a stream has a first row. -/
theorem exists_first {stream : List (TransformResult Fields)} {key : String}
    (h : core.seenIn stream key ≠ none) :
    ∃ i enriched fingerprint, stream[i]? = some enriched ∧
      core.keyedRow enriched = some (key,fingerprint) ∧
      core.seenIn (stream.take i) key = none := by
  induction stream with
  | nil => exact absurd rfl h
  | cons enriched rest ih =>
    by_cases hhead : ∃ fingerprint, core.keyedRow enriched = some (key,fingerprint)
    · obtain ⟨fingerprint,hk⟩ := hhead
      exact ⟨0,enriched,fingerprint,rfl,hk,rfl⟩
    · have hskip : ∀ later, core.seenIn (enriched::later) key = core.seenIn later key := by
        intro later
        cases hk : core.keyedRow enriched with
        | none => simp [seenIn, hk]
        | some keyed =>
          obtain ⟨k,fingerprint⟩ := keyed
          have hne : k ≠ key := by
            rintro rfl
            exact hhead ⟨fingerprint,hk⟩
          simp [seenIn, hk, Dict.get?, hne]
      rw [hskip] at h
      obtain ⟨i,later,fingerprint,hi,hk,hnone⟩ := ih h
      exact ⟨i+1,later,fingerprint,hi,hk,by rw [List.take_succ_cons, hskip]; exact hnone⟩

end MatchCore

section Policies

variable {core : MatchCore} {catalog : ErrorCatalog} {scope : Dict String String}
  {stream : List (TransformResult Fields)}

theorem PoliciesMet.find?_reset (h : PoliciesMet core scope stream) {store : DedupStore}
    (hs : store.shared = none ∨ store.shared = some scope) :
    ∀ enriched ∈ stream, ∀ key fingerprint,
      core.keyedRow enriched = some (key,fingerprint) → store.reset.find? key = none := by
  intro enriched hmem key fingerprint hk
  have hfresh := h.fresh enriched hmem key fingerprint hk
  rcases hs with hs | hs <;> simp [DedupStore.find?, DedupStore.reset, hs, hfresh]

theorem PoliciesMet.deduplicated (h : PoliciesMet core scope stream)
    (he : core.matchingRules.sourceDedup.enabled = true) {store : DedupStore}
    (hs : store.shared = none ∨ store.shared = some scope) :
    Deduplicated core stream (matchStream core catalog store.reset stream) := by
  have hresult : ∀ {i enriched matched row key}, stream[i]? = some enriched →
      core.Keyed enriched matched row key →
      (matchStream core catalog store.reset stream)[i]? = some (core.applyOutcome matched row
        (DedupOutcome.judge (core.seenIn (stream.take i) key) row.fingerprint)) := by
    intro i enriched matched row key hi hkeyed
    rw [hkeyed.result catalog he hi,
      h.find?_reset hs enriched (List.mem_of_getElem? hi) key row.fingerprint hkeyed.keyedRow,
      Option.none_or]
  constructor
  · intro i enriched matched row key hi hkeyed hseen
    rw [hresult hi hkeyed, hseen]
    rfl
  · intro i enriched matched row key hi hkeyed hseen
    refine ⟨_,hresult hi hkeyed,?_⟩
    rw [hseen, DedupOutcome.judge, if_pos rfl, MatchCore.flagged_duplicate_iff]
    exact h.duplicate i enriched key row.fingerprint hi hkeyed.keyedRow hseen
  · intro i enriched matched row key seen hi hkeyed hseen hne
    refine ⟨_,hresult hi hkeyed,?_⟩
    rw [hseen, DedupOutcome.judge, if_neg hne, MatchCore.flagged_conflict_iff]
    exact h.conflict i enriched key row.fingerprint seen hi hkeyed.keyedRow hseen hne

theorem DedupRun.on_duplicate (h : DedupRun core catalog scope stream)
    (he : core.matchingRules.sourceDedup.enabled = true) {i : Nat}
    {enriched : TransformResult Fields} {key fingerprint : String}
    (hi : stream[i]? = some enriched) (hk : core.keyedRow enriched = some (key,fingerprint))
    (hseen : core.seenIn (stream.take i) key = some fingerprint) :
    core.matchingRules.sourceDedup.onDuplicate = .warn ∧
      core.catalog.resolveSeverity "MATCH_DUPLICATE_SOURCE" none .warning = .warning := by
  obtain ⟨matched,row,hkeyed,rfl⟩ := MatchCore.keyed_of_keyedRow hk
  obtain ⟨result,hget,hflagged⟩ := (h.deduplicated [stream] (by simp) ⟨[],none⟩
    (.inl rfl)).duplicate i enriched matched row key hi hkeyed hseen
  rw [hkeyed.local_result catalog he hi, hseen, DedupOutcome.judge, if_pos rfl] at hget
  cases hget
  exact (MatchCore.flagged_duplicate_iff _ matched row).mp hflagged

theorem DedupRun.on_conflict (h : DedupRun core catalog scope stream)
    (he : core.matchingRules.sourceDedup.enabled = true) {i : Nat}
    {enriched : TransformResult Fields} {key fingerprint seen : String}
    (hi : stream[i]? = some enriched) (hk : core.keyedRow enriched = some (key,fingerprint))
    (hseen : core.seenIn (stream.take i) key = some seen) (hne : seen ≠ fingerprint) :
    core.catalog.resolveSeverity "MATCH_CONFLICT_SOURCE" none
      core.matchingRules.sourceDedup.onConflict.severity =
        core.matchingRules.sourceDedup.onConflict.severity := by
  obtain ⟨matched,row,hkeyed,rfl⟩ := MatchCore.keyed_of_keyedRow hk
  obtain ⟨result,hget,hflagged⟩ := (h.deduplicated [stream] (by simp) ⟨[],none⟩
    (.inl rfl)).conflict i enriched matched row key seen hi hkeyed hseen hne
  rw [hkeyed.local_result catalog he hi, hseen, DedupOutcome.judge, if_neg hne] at hget
  cases hget
  exact (MatchCore.flagged_conflict_iff matched row).mp hflagged

/-- The first row of a key keeps its row over a scope only if the scope does not hold it. -/
theorem DedupRun.fresh (h : DedupRun core catalog scope stream)
    (he : core.matchingRules.sourceDedup.enabled = true) {enriched : TransformResult Fields}
    (hmem : enriched ∈ stream) {key fingerprint : String}
    (hk : core.keyedRow enriched = some (key,fingerprint)) : Dict.get? scope key = none := by
  have hin : core.seenIn stream key ≠ none := by
    intro hnone
    exact absurd (List.mem_filterMap.mpr ⟨enriched,hmem,hk⟩)
      (Dict.not_mem_of_get?_eq_none hnone fingerprint)
  obtain ⟨i,first,seen,hi,hfirst,hnone⟩ := MatchCore.exists_first hin
  obtain ⟨matched,row,hkeyed,rfl⟩ := MatchCore.keyed_of_keyedRow hfirst
  have hkept := (h.deduplicated [stream] (by simp) ⟨[],some scope⟩ (.inr rfl)).first i first
    matched row key hi hkeyed hnone
  rw [matchBatches_eq, List.flatten_singleton, hkeyed.result catalog he hi, hnone] at hkept
  cases hget : Dict.get? scope key with
  | none => rfl
  | some known =>
    simp only [DedupStore.find?, DedupStore.reset, Dict.get?_nil, Option.bind_some, hget,
      Option.or_none, Option.some.injEq] at hkept
    have hlost := DedupOutcome.judge_some known row.fingerprint
    have hrow := (core.applyOutcome_recognised matched row hlost).1
    rw [hkept, hkeyed.kept] at hrow
    cases hrow

end Policies

/-- A stream is deduplicated as the policies say, however it is cut and whichever store is
used, exactly when a duplicate is only to be warned of, the catalog gives the diagnostics the
severity that was asked for, and the scope holds none of the keys. -/
theorem source_dedup_iff (core : MatchCore) (catalog : ErrorCatalog)
    (scope : Dict String String) (stream : List (TransformResult Fields))
    (he : core.matchingRules.sourceDedup.enabled = true) :
    DedupRun core catalog scope stream ↔ PoliciesMet core scope stream := by
  constructor
  · intro h
    exact
      { duplicate := fun i _ _ _ hi hk hseen => h.on_duplicate he hi hk hseen
        conflict := fun i _ _ _ _ hi hk hseen hne => h.on_conflict he hi hk hseen hne
        fresh := fun _ hmem _ _ hk => h.fresh he hmem hk }
  · intro h
    have hsame : ∀ store : DedupStore, store.shared = none ∨ store.shared = some scope →
        matchStream core catalog store.reset stream =
          matchBatches core catalog ⟨[],none⟩ [stream] := by
      intro store hs
      rw [matchBatches_eq, List.flatten_singleton]
      apply MatchCore.matchStream_congr catalog he
      intro enriched hmem key fingerprint hk
      rw [h.find?_reset hs enriched hmem key fingerprint hk]
      rfl
    constructor
    · intro batches hcut store hs
      rw [matchBatches_eq, hcut]
      exact h.deduplicated he hs
    · intro batches hcut store hs
      rw [matchBatches_eq, hcut]
      exact hsame store hs
    · intro settings clock store hs
      rw [matchStageRun, matchBatches_eq, iterMicroBatches_flatten]
      exact hsame store hs

section Samples

/-- The entries of the core catalog for the two diagnostics. -/
def dedupCatalog : ErrorCatalog :=
  [("MATCH_CONFLICT_SOURCE",⟨.conflict,none,some .error⟩),
    ("MATCH_DUPLICATE_SOURCE",⟨.dataInvalid,none,some .warning⟩)]

def dedupMatcher (rules : SourceDedupRules) : MatchCore :=
  { fieldMatcher ["code"] [] with
    matchingRules := { identityRules := [fieldRule "code"], sourceDedup := rules }
    catalog := dedupCatalog }

/-- Two rows of one code, with the names given. -/
def codeTwice (name name' : String) : List (TransformResult Fields) :=
  [sourceRow 2 "line:2" [("code",.str "E1"),("name",.str name)],
    sourceRow 3 "line:3" [("code",.str "E1"),("name",.str name')]]

end Samples

theorem source_dedup_iff_defaults :
    DedupRun (dedupMatcher {}) dedupCatalog [("code:E2","name=Bob")] (codeTwice "Ann" "Anna") := by
  refine (source_dedup_iff (dedupMatcher {}) dedupCatalog [("code:E2","name=Bob")]
    (codeTwice "Ann" "Anna") rfl).mpr ⟨fun _ _ _ _ _ _ _ => ⟨rfl,rfl⟩,
      fun _ _ _ _ _ _ _ _ _ => rfl,?_⟩
  intro enriched hmem key fingerprint hk
  have hkeys : ∀ e ∈ codeTwice "Ann" "Anna",
      ((dedupMatcher {}).keyedRow e).map Prod.fst = some "code:E1" := by decide
  have hkey := hkeys enriched hmem
  rw [hk] at hkey
  cases hkey
  rfl

/-- A duplicate that is to be an error is warned of, and a conflict that is to be warned of
gets the severity of an error. -/
theorem policies_not_met :
    ¬ DedupRun (dedupMatcher { onDuplicate := .error }) dedupCatalog [] (codeTwice "Ann" "Ann") ∧
      ¬ DedupRun (dedupMatcher { onConflict := .warn }) dedupCatalog []
        (codeTwice "Ann" "Anna") := by
  constructor
  · intro h
    have hpolicy := h.on_duplicate rfl (i := 1) rfl
      (by decide : _ = some ("code:E1","code=E1 name=Ann")) (by decide)
    cases hpolicy.1
  · intro h
    have hseverity := h.on_conflict rfl (i := 1) rfl
      (by decide : _ = some ("code:E1","code=E1 name=Anna"))
      (by decide : _ = some "code=E1 name=Ann") (by decide)
    revert hseverity
    decide

end NexusEtl
