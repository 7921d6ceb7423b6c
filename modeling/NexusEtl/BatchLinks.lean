import NexusEtl.PlanRows

/-!
# Links through the batch index

The batch index is built from all buffered rows before any of them is resolved,
and a link takes from it whatever identifier a row of the batch would have. The
identifier is good when the rows behind the entry are: they resolve in the same
run, and those that were matched exist in the dataset that the link points to.
-/

set_option autoImplicit false

namespace NexusEtl
open NexusEtl.Library

def bucket (index : BatchIndex) (lookupKey : String) : List String :=
  (Dict.get? index lookupKey).getD []

theorem mem_bucket_append {id : String} {index : BatchIndex} {keys : List String}
    {lookupKey x : String} :
    x ∈ bucket (keys.foldl (appendBucket id) index) lookupKey ↔
      x ∈ bucket index lookupKey ∨ (x = id ∧ lookupKey ∈ keys) := by
  induction keys generalizing index with
  | nil => simp
  | cons key keys ih =>
    rw [List.foldl_cons, ih]
    unfold appendBucket bucket
    rw [Dict.get?_set]
    by_cases h : key = lookupKey
    · subst h
      simp only [if_true, Option.getD_some, List.mem_append, List.mem_cons, true_or, and_true]
      grind
    · simp only [h, if_false, List.mem_cons, Ne.symm h, false_or]

namespace ResolveCore

variable (core : ResolveCore)

def batchKeyNames : List String := (collectBatchKeys core.linkRules).1

def batchIdField : String := (collectBatchKeys core.linkRules).2

/-- The row enters the identifier under the key. -/
def Supplies (row : MatchedRow) (lookupKey id : String) : Prop :=
  extractResolvedId row core.batchIdField = some id ∧ id ≠ "" ∧
    lookupKey ∈ batchKeys core.batchKeyNames row

theorem mem_indexRow {index : BatchIndex} {m : TransformResult MatchedRow}
    {lookupKey id : String} :
    id ∈ bucket (indexRow core.batchKeyNames core.batchIdField index m) lookupKey ↔
      id ∈ bucket index lookupKey ∨
        ∃ row, m.row = some row ∧ core.Supplies row lookupKey id := by
  unfold indexRow Supplies
  cases hrow : m.row with
  | none => simp
  | some row =>
    dsimp only
    cases hid : extractResolvedId row core.batchIdField with
    | none => simp [hid]
    | some x =>
      by_cases hx : x = ""
      · subst hx
        have hfilter : Option.filter (fun x => decide (x ≠ "")) (some "") = none := rfl
        rw [hfilter]
        constructor
        · exact .inl
        · rintro (h | ⟨_,⟨⟩,h,hne,_⟩)
          · exact h
          · rw [hid, Option.some.injEq] at h
            exact absurd h.symm hne
      · simp only [Option.filter, hx, ne_eq, not_false_eq_true, decide_true, if_true,
          mem_bucket_append, Option.some.injEq, exists_eq_left', hid]
        constructor
        · rintro (h | ⟨rfl,h⟩)
          · exact .inl h
          · exact .inr ⟨rfl,hx,h⟩
        · rintro (h | ⟨rfl,_,h⟩)
          · exact .inl h
          · exact .inr ⟨rfl,h⟩

/-- The batch index holds what the rows of the batch supply, and nothing else. -/
theorem mem_buildBatchIndex {rows : List (TransformResult MatchedRow)} {lookupKey id : String} :
    id ∈ bucket (core.buildBatchIndex rows) lookupKey ↔
      ∃ m ∈ rows, ∃ row, m.row = some row ∧ core.Supplies row lookupKey id := by
  have hgen : ∀ index, id ∈ bucket
      (rows.foldl (indexRow core.batchKeyNames core.batchIdField) index) lookupKey ↔
        id ∈ bucket index lookupKey ∨
          ∃ m ∈ rows, ∃ row, m.row = some row ∧ core.Supplies row lookupKey id := by
    induction rows with
    | nil => simp
    | cons m rows ih =>
      intro index
      rw [List.foldl_cons, ih, mem_indexRow]
      simp only [List.exists_mem_cons_iff, or_assoc]
  have hempty : id ∉ bucket [] lookupKey := by simp [bucket]
  have h := hgen []
  simp only [hempty, false_or] at h
  exact h

end ResolveCore

/-- The text under which the code compares identifiers. -/
def idTextOf (v : Value) : Option String :=
  if v.isNull then none else some (Text.strip v.pyStr)

/-- The item's record is known by the identifier. -/
def PlanItem.HasId (item : PlanItem) (idField id : String) : Prop :=
  idTextOf (Fields.read item.desiredState idField) = some id ∨
    (idField = "_id" ∧ idTextOf item.targetId = some id)

namespace ResolveStage

variable (stage : ResolveStage)

/-- The links that the row of a position had answered. -/
def hitsAt (schedule : Nat → Tick) (db : IdentityDb) (rows : List (TransformResult MatchedRow))
    (k : Nat) : List LinkHit :=
  match rows[k]?.bind fun m => m.row.map fun row => (m,row) with
  | none => []
  | some (m,row) => (stage.resolver.resolve (stage.dbBefore schedule 0 db rows k)
      (stage.callOf m row (schedule k).clock)).hits

/-- The row of a position leaves the resolver as a row without errors. -/
def ResolvesAt (schedule : Nat → Tick) (db : IdentityDb)
    (rows : List (TransformResult MatchedRow)) (k : Nat) : Prop :=
  ∃ m ∈ rows[k]?, PlanBuilder.isFailed (stage.resolveRow (schedule k).clock
    (stage.dbBefore schedule 0 db rows k) m).1 = false

/-- A link of a planned row that was answered from the batch index. -/
def BatchLink (schedule : Nat → Tick) (db : IdentityDb) (rows : List (TransformResult MatchedRow))
    (hit : LinkHit) : Prop :=
  ∃ k, stage.PlansAt schedule db rows k ∧ hit ∈ stage.hitsAt schedule db rows k ∧
    hit.resolvedId ∈ bucket stage.batchIndex hit.lookupKey

/-- A row of the source that supplied the identifier of a link. -/
def SupplierAt (stream : List (TransformResult MatchedRow)) (i : Nat) (row : MatchedRow)
    (hit : LinkHit) : Prop :=
  i < stream.length ∧ stream[i]?.bind TransformResult.row = some row ∧
    stage.resolver.Supplies row hit.lookupKey hit.resolvedId

/-- Every identifier that a planned row took from the batch index exists in the target of
its link or belongs to a record that the plan creates, and no row behind it was ambiguous,
in conflict or failed. -/
def LinksSound (inTarget : String → String → Prop) (schedule : Nat → Tick) (db : IdentityDb)
    (stream replayed : List (TransformResult MatchedRow)) : Prop :=
  ∀ hit, stage.BatchLink schedule db (stream ++ replayed) hit →
    (inTarget hit.rule.targetDataset hit.resolvedId ∨
      ∃ item ∈ (PlanBuilder.buildFromStream
          (stage.resolveStream schedule 0 db (stream ++ replayed)).1).planItems,
        item.op = .create ∧ item.HasId stage.resolver.batchIdField hit.resolvedId) ∧
    ∀ i row, stage.SupplierAt stream i row hit →
      resolveDecisionStatus row ≠ .ambiguous ∧ resolveDecisionStatus row ≠ .conflictSource ∧
        stage.ResolvesAt schedule db (stream ++ replayed) i

/-- Every row behind such an identifier resolves in the run, and if it was matched, its
identifier exists in the dataset that the link points to. -/
def SuppliersResolve (inTarget : String → String → Prop) (schedule : Nat → Tick)
    (db : IdentityDb) (stream replayed : List (TransformResult MatchedRow)) : Prop :=
  ∀ hit, stage.BatchLink schedule db (stream ++ replayed) hit →
    ∀ i row, stage.SupplierAt stream i row hit →
      stage.ResolvesAt schedule db (stream ++ replayed) i ∧
        (resolveDecisionStatus row = .matched →
          inTarget hit.rule.targetDataset hit.resolvedId)

variable {stage}

/-- A row without errors after the resolver, taken back to the loop that built it. -/
theorem resolveRow_built {clock : Clock} {db : IdentityDb} {m : TransformResult MatchedRow}
    {row : MatchedRow} (hrow : m.row = some row)
    (h : PlanBuilder.isFailed (stage.resolveRow clock db m).1 = false) :
    ∃ resolved warnings s, (stage.resolver.resolve db (stage.callOf m row clock)).result =
        .ok ⟨some resolved,[],warnings⟩ ∧
      stage.resolver.Entered db (stage.callOf m row clock) s ∧
      stage.resolver.Built (stage.callOf m row clock) s resolved ∧
      (stage.resolveRow clock db m).1.row = some resolved ∧
      (stage.resolveRow clock db m).1.errors = [] := by
  unfold resolveRow at h ⊢
  rw [hrow] at h ⊢
  dsimp only at h ⊢
  cases hres : (stage.resolver.resolve db (stage.callOf m row clock)).result with
  | error exc => simp [hres, resultOf, diagnosticBoundary, PlanBuilder.isFailed] at h
  | ok r =>
    obtain ⟨resolvedRow,errors,warnings⟩ := r
    cases resolvedRow with
    | none => simp [hres, resultOf, diagnosticBoundary, PlanBuilder.isFailed] at h
    | some resolved =>
      simp only [hres, resultOf, diagnosticBoundary, PlanBuilder.isFailed, List.append_nil,
        Bool.or_eq_false_iff, decide_eq_false_iff_not, ne_eq, not_not] at h
      obtain ⟨rfl,_⟩ := h
      obtain ⟨s,hent,hbuilt,_⟩ := ResolveCore.resolve_row hres rfl
      exact ⟨resolved,warnings,s,rfl,hent,hbuilt,rfl,rfl⟩

/-- A supplier that found nothing in the cache and resolves becomes a create item under the
identifier it supplied. -/
theorem supplier_creates {clock : Clock} {db : IdentityDb} {m : TransformResult MatchedRow}
    {row : MatchedRow} {lookupKey id : String} (hrow : m.row = some row)
    (h : PlanBuilder.isFailed (stage.resolveRow clock db m).1 = false)
    (hsup : stage.resolver.Supplies row lookupKey id)
    (hstatus : resolveDecisionStatus row = .notFound)
    (hkeys : (Dict.keys row.desiredState).Nodup)
    (hid : ∀ rule ∈ stage.resolver.linkRules, rule.field ≠ stage.resolver.batchIdField) :
    ∃ item, PlanBuilder.itemOf (stage.resolveRow clock db m).1 = some item ∧
      item.op = .create ∧ item.HasId stage.resolver.batchIdField id := by
  obtain ⟨resolved,warnings,s,_,⟨_,merged,mutated,hmerge,htraced⟩,hbuilt,hres,herr⟩ :=
    resolveRow_built hrow h
  obtain ⟨_,_,hdesired,htarget,hop⟩ := ResolveCore.buildResolvedRow_spec hbuilt.built
  have hcreate : resolved.op = .create :=
    (ResolveCore.decideOp_create hop).1.mpr hstatus
  have htruthy : resolved.targetId.truthy := htarget ▸ hbuilt.target
  refine ⟨PlanBuilder.serializePlanItem resolved,?_,?_,?_⟩
  · simp [PlanBuilder.itemOf, hres, herr, hcreate]
  · simp [PlanBuilder.serializePlanItem, hcreate]
  · obtain ⟨hextract,_,_⟩ := hsup
    have hexisting : (existingId row stage.resolver.batchIdField).isNull = true := by
      rw [existingId, hstatus, if_neg (by decide)]
      rfl
    simp only [extractResolvedId, hexisting, Bool.not_true, Bool.false_eq_true, if_false]
      at hextract
    split at hextract
    · rename_i hdes
      have hnonnull : (Fields.read row.desiredState stage.resolver.batchIdField).isNull = false := by
        simpa using hdes
      have hread : Fields.read (PlanBuilder.serializePlanItem resolved).desiredState
          stage.resolver.batchIdField =
          Fields.read row.desiredState stage.resolver.batchIdField := by
        rw [PlanBuilder.serializePlanItem, hdesired, htraced.frame _ hid]
        exact ResolveCore.applyMergePolicy_keeps hmerge hkeys hnonnull
      refine .inl ?_
      rw [hread, idTextOf, hnonnull]
      exact hextract
    · split at hextract
      · rename_i hcond
        refine .inr ⟨hcond.1,?_⟩
        have htarget' : resolved.targetId = row.targetId := by
          rw [htarget]
          simp [resolveTargetId, callOf, hstatus, hcond.2]
        have hnonnull := Value.isNull_of_truthy hcond.2
        have hitem : (PlanBuilder.serializePlanItem resolved).targetId = row.targetId := by
          rw [← htarget']
          simp only [PlanBuilder.serializePlanItem, htruthy, if_true]
        rw [hitem, idTextOf, hnonnull]
        exact hextract
      · cases hextract

theorem resolvesAt_mem {schedule : Nat → Tick} {db : IdentityDb}
    {rows : List (TransformResult MatchedRow)} {k : Nat} {m : TransformResult MatchedRow}
    (hm : rows[k]? = some m) (h : stage.ResolvesAt schedule db rows k) :
    PlanBuilder.isFailed (stage.resolveRow (schedule k).clock
        (stage.dbBefore schedule 0 db rows k) m).1 = false ∧
      (stage.resolveRow (schedule k).clock (stage.dbBefore schedule 0 db rows k) m).1 ∈
        (stage.resolveStream schedule 0 db rows).1 := by
  obtain ⟨m',hm',hfailed⟩ := h
  rw [hm] at hm'
  cases hm'
  refine ⟨hfailed,?_⟩
  have hget := stage.resolveStream_get schedule 0 db rows k
  rw [hm, Nat.zero_add] at hget
  exact List.mem_of_getElem? hget

end ResolveStage

section Samples

open World

/-- A manager and the employee that names it by its code. -/
def team : List (TransformResult MatchedRow) :=
  [arriving managerRow,arriving employeeWaits.call.matched]

theorem team_suppliers_resolve : (planningStage employeeWaits.core [] team).SuppliersResolve
    (fun _ _ => False) steady IdentityDb.empty team [] := by
  rintro hit _ i row ⟨hi,hrow,_⟩
  match i, hi with
  | 0, _ =>
    cases hrow
    exact ⟨⟨_,rfl,by decide⟩,fun h => absurd h (by decide)⟩
  | 1, _ =>
    cases hrow
    exact ⟨⟨_,rfl,by decide⟩,fun h => absurd h (by decide)⟩

/-- The manager, found twice in the cache. -/
def ambiguousManager : MatchedRow :=
  { managerRow with matchDecision := { managerRow.matchDecision with status := .ambiguous } }

end Samples
end NexusEtl
