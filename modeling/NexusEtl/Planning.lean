import NexusEtl.ResolveSpec
import NexusEtl.TransformResult

/-!
# A planning run

The context stage builds the batch index from the rows of the source, the rows
that wait in the store are appended, every row is resolved in turn, and the plan
is built from the results. Micro-batches of the run end with a sweep of expired
links; the schedule says for each row what the clock reads and whether a sweep
follows it.
-/

set_option autoImplicit false

namespace NexusEtl
open NexusEtl.Library

structure Tick where
  clock : Clock
  sweep : Option (String × String)
  deriving DecidableEq, Repr

def sweepTick (tick : Tick) (db : IdentityDb) : IdentityDb :=
  match tick.sweep with
  | none => db
  | some (now,stamp) =>
    { db with pending := (db.pending.sweepExpired now (some "expired") stamp).1 }

/-- What a planning run fixes for all of its rows. -/
structure ResolveStage where
  resolver : ResolveCore
  catalog : ErrorCatalog
  batchIndex : BatchIndex

namespace ResolveStage

variable (stage : ResolveStage)

def callOf (matched : TransformResult MatchedRow) (row : MatchedRow) (clock : Clock) :
    ResolveCall :=
  { matched := row, sourceRecord := matched.record, targetIdMap := []
    metadata := matched.metadata, batchIndex := stage.batchIndex, clock := clock }

/-- The result of a row: the source's parts with the errors and warnings of the resolver. -/
def resultOf (matched : TransformResult MatchedRow) (result : Except PyException Resolution) :
    TransformResult ResolvedRow :=
  match diagnosticBoundary .resolve stage.catalog matched.rowRef result with
  | (none,boundary) => { matched with row := none, errors := boundary, warnings := [] }
  | (some r,boundary) =>
    { matched with row := r.row, errors := r.errors ++ boundary, warnings := r.warnings }

def resolveRow (clock : Clock) (db : IdentityDb) (matched : TransformResult MatchedRow) :
    TransformResult ResolvedRow × IdentityDb :=
  match matched.row with
  | none => (matched.withoutRow,db)
  | some row =>
    let outcome := stage.resolver.resolve db (stage.callOf matched row clock)
    (stage.resultOf matched outcome.result,{ db with pending := outcome.pending })

/-- `ResolveStage.run` under the schedule of the micro-batches, from the given row on. -/
def resolveStream (schedule : Nat → Tick) : Nat → IdentityDb →
    List (TransformResult MatchedRow) → List (TransformResult ResolvedRow) × IdentityDb
  | _, db, [] => ([],db)
  | n, db, matched::rest =>
    let (resolved,db) := stage.resolveRow (schedule n).clock db matched
    let (results,db) := resolveStream schedule (n+1) (sweepTick (schedule n) db) rest
    (resolved::results,db)

@[simp] theorem resolveStream_length (schedule : Nat → Tick) (n : Nat) (db : IdentityDb)
    (rows : List (TransformResult MatchedRow)) :
    (stage.resolveStream schedule n db rows).1.length = rows.length := by
  induction rows generalizing n db with
  | nil => rfl
  | cons m rows ih => simp [resolveStream, ih]

/-- The store that the row of a position meets. -/
def dbBefore (schedule : Nat → Tick) (n : Nat) (db : IdentityDb)
    (rows : List (TransformResult MatchedRow)) (k : Nat) : IdentityDb :=
  (stage.resolveStream schedule n db (rows.take k)).2

/-- Each result is that of its row in the store that the row meets. -/
theorem resolveStream_get (schedule : Nat → Tick) (n : Nat) (db : IdentityDb)
    (rows : List (TransformResult MatchedRow)) (k : Nat) :
    (stage.resolveStream schedule n db rows).1[k]? = rows[k]?.map fun m =>
      (stage.resolveRow (schedule (n+k)).clock (stage.dbBefore schedule n db rows k) m).1 := by
  induction rows generalizing n db k with
  | nil => simp [resolveStream]
  | cons m rows ih =>
    cases k with
    | zero => simp [resolveStream, dbBefore]
    | succ k =>
      simp only [resolveStream, List.getElem?_cons_succ, ih, dbBefore, List.take_succ_cons]
      rw [show n + 1 + k = n + (k + 1) by omega]

theorem resolveStream_append (schedule : Nat → Tick) (n : Nat) (db : IdentityDb)
    (xs ys : List (TransformResult MatchedRow)) :
    (stage.resolveStream schedule n db (xs ++ ys)).1 =
      (stage.resolveStream schedule n db xs).1 ++
        (stage.resolveStream schedule (n + xs.length)
          (stage.resolveStream schedule n db xs).2 ys).1 := by
  induction xs generalizing n db with
  | nil => simp [resolveStream]
  | cons m xs ih =>
    simp only [List.cons_append, resolveStream, ih, List.length_cons]
    rw [show n + 1 + xs.length = n + (xs.length + 1) by omega]

end ResolveStage

/-- The text of an item's operation; a plan that is read from a file may hold any text. -/
inductive Operation
  | create | update
  | other (text : String)
  deriving DecidableEq, Repr

structure PlanItem where
  rowId : String
  lineNo : Option Int
  op : Operation
  targetId : Value
  desiredState : Fields
  changes : Fields
  sourceRef : Option Fields
  secretFields : List String
  secretLifecycle : Option Fields
  deriving DecidableEq, Repr

structure PlanSummary where
  rowsTotal : Nat
  validRows : Nat
  failedRows : Nat
  plannedCreate : Nat
  plannedUpdate : Nat
  skipped : Nat
  deriving DecidableEq, Repr

structure PlanBuilder where
  planItems : List PlanItem
  summary : PlanSummary
  deriving DecidableEq, Repr

namespace PlanBuilder

def empty : PlanBuilder := ⟨[],⟨0,0,0,0,0,0⟩⟩

def serializePlanItem (resolved : ResolvedRow) : PlanItem :=
  { rowId := resolved.rowRef.rowId
    lineNo := resolved.rowRef.lineNo
    op := if resolved.op = .create then .create else .update
    targetId := if resolved.targetId.truthy then resolved.targetId else .str ""
    desiredState := resolved.desiredState
    changes := resolved.changes
    sourceRef := resolved.sourceRef
    secretFields := resolved.secretFields
    secretLifecycle := resolved.secretLifecycle }

def failRow (b : PlanBuilder) : PlanBuilder :=
  { b with summary := { b.summary with failedRows := b.summary.failedRows + 1 } }

def addResolvedWithoutTotal (b : PlanBuilder) (resolved : ResolvedRow) : PlanBuilder :=
  let valid := { b.summary with validRows := b.summary.validRows + 1 }
  if resolved.op = .skip then { b with summary := { valid with skipped := valid.skipped + 1 } }
  else
    let item := serializePlanItem resolved
    { planItems := b.planItems ++ [item]
      summary := if item.op = .create then
          { valid with plannedCreate := valid.plannedCreate + 1 }
        else { valid with plannedUpdate := valid.plannedUpdate + 1 } }

def countRow (b : PlanBuilder) : PlanBuilder :=
  { b with summary := { b.summary with rowsTotal := b.summary.rowsTotal + 1 } }

/-- One round of `build_from_stream`. -/
def addResult (b : PlanBuilder) (resolved : TransformResult ResolvedRow) : PlanBuilder :=
  match resolved.row with
  | none => b.countRow.failRow
  | some row =>
    if resolved.errors ≠ [] then b.countRow.failRow
    else if row.op = .conflict then b.countRow.failRow
    else b.countRow.addResolvedWithoutTotal row

def buildFromStream (results : List (TransformResult ResolvedRow)) : PlanBuilder :=
  results.foldl addResult empty

/-- The item that a result becomes, when it becomes one. -/
def itemOf (resolved : TransformResult ResolvedRow) : Option PlanItem :=
  resolved.row.bind fun row =>
    if resolved.errors = [] ∧ row.op ≠ .conflict ∧ row.op ≠ .skip then
      some (serializePlanItem row)
    else none

/-- Whether the builder counts a result as failed. -/
def isFailed (resolved : TransformResult ResolvedRow) : Bool :=
  match resolved.row with
  | none => true
  | some row => resolved.errors ≠ [] || row.op == .conflict

theorem addResult_spec (b : PlanBuilder) (resolved : TransformResult ResolvedRow) :
    (b.addResult resolved).planItems = b.planItems ++ (itemOf resolved).toList ∧
      (b.addResult resolved).summary.failedRows =
        b.summary.failedRows + (isFailed resolved).toNat := by
  unfold addResult itemOf isFailed
  cases hrow : resolved.row with
  | none => exact ⟨by simp [failRow, countRow],rfl⟩
  | some row =>
    dsimp only
    split
    · rename_i he
      simp [he, failRow, countRow]
    · rename_i he
      split
      · rename_i hc
        simp [he, hc, failRow, countRow]
      · rename_i hc
        unfold addResolvedWithoutTotal
        dsimp only
        split
        · rename_i hs
          simp_all [countRow]
        · rename_i hs
          refine ⟨?_,?_⟩
          · simp_all [countRow]
          · split <;> simp_all [countRow]

/-- The plan is the items of the results in order; the failed rows are counted. -/
theorem buildFromStream_spec (results : List (TransformResult ResolvedRow)) :
    (buildFromStream results).planItems = results.filterMap itemOf ∧
      (buildFromStream results).summary.failedRows = results.countP isFailed := by
  have hgen : ∀ b : PlanBuilder,
      (results.foldl addResult b).planItems = b.planItems ++ results.filterMap itemOf ∧
        (results.foldl addResult b).summary.failedRows =
          b.summary.failedRows + results.countP isFailed := by
    induction results with
    | nil => intro b; simp
    | cons resolved results ih =>
      intro b
      obtain ⟨hitems,hfailed⟩ := b.addResult_spec resolved
      obtain ⟨hi,hf⟩ := ih (b.addResult resolved)
      constructor
      · rw [List.foldl_cons, hi, hitems, List.append_assoc, List.filterMap_cons]
        cases itemOf resolved <;> rfl
      · rw [List.foldl_cons, hf, hfailed, List.countP_cons]
        cases isFailed resolved <;> simp [Nat.add_assoc, Nat.add_comm 1]
  simpa [buildFromStream, empty] using hgen empty

end PlanBuilder

/-- Where an item of a result comes from: the row resolved, without errors, to a create or
an update. -/
theorem itemOf_resolveRow {stage : ResolveStage} {clock : Clock} {db : IdentityDb}
    {m : TransformResult MatchedRow} {item : PlanItem}
    (h : PlanBuilder.itemOf (stage.resolveRow clock db m).1 = some item) :
    ∃ row resolved warnings, m.row = some row ∧
      (stage.resolver.resolve db (stage.callOf m row clock)).result =
        .ok ⟨some resolved,[],warnings⟩ ∧
      resolved.op ≠ .conflict ∧ resolved.op ≠ .skip ∧
      item = PlanBuilder.serializePlanItem resolved := by
  unfold ResolveStage.resolveRow at h
  split at h
  · simp [PlanBuilder.itemOf, TransformResult.withoutRow] at h
  · rename_i row hrow
    dsimp only at h
    cases hres : (stage.resolver.resolve db (stage.callOf m row clock)).result with
    | error exc => simp [hres, ResolveStage.resultOf, diagnosticBoundary, PlanBuilder.itemOf] at h
    | ok r =>
      obtain ⟨resolvedRow,errors,warnings⟩ := r
      simp only [hres, ResolveStage.resultOf, diagnosticBoundary, PlanBuilder.itemOf,
        List.append_nil] at h
      cases resolvedRow with
      | none => simp at h
      | some resolved =>
        rw [Option.bind_some] at h
        split at h
        · rename_i hcond
          obtain ⟨he,hc,hs⟩ := hcond
          cases h
          exact ⟨row,resolved,warnings,hrow,by rw [hres, he],hc,hs,rfl⟩
        · cases h

/-- An item bears the identifier of its row. -/
theorem itemOf_rowId {stage : ResolveStage} {clock : Clock} {db : IdentityDb}
    {m : TransformResult MatchedRow} {item : PlanItem}
    (h : PlanBuilder.itemOf (stage.resolveRow clock db m).1 = some item) :
    m.row.map (fun row => row.rowRef.rowId) = some item.rowId := by
  obtain ⟨row,resolved,warnings,hrow,hres,_,_,rfl⟩ := itemOf_resolveRow h
  obtain ⟨s,_,hbuilt,_⟩ := ResolveCore.resolve_row hres rfl
  have href := (ResolveCore.buildResolvedRow_spec hbuilt.built).1
  rw [hrow]
  simp only [Option.map_some, PlanBuilder.serializePlanItem, href]
  rfl

/-- The outcome of a planning run: the results in order, the store after it. -/
structure Planned where
  results : List (TransformResult ResolvedRow)
  db : IdentityDb

/-- The stage of a planning run, with the batch index of the context stage. -/
def planningStage (resolver : ResolveCore) (catalog : ErrorCatalog)
    (stream : List (TransformResult MatchedRow)) : ResolveStage :=
  ⟨resolver,catalog,resolver.buildBatchIndex stream⟩

/-- `iter_resolved` on the stream of the context stage: the waiting rows are loaded first
and follow the rows of the source. -/
def iterResolved (resolver : ResolveCore) (catalog : ErrorCatalog) (dataset : String)
    (schedule : Nat → Tick) (db : IdentityDb) (stream : List (TransformResult MatchedRow)) :
    Except PyException Planned := do
  let loaded ← PendingCodec.loadPendingRows (db.pending.listPendingRows dataset)
  let (results,db) := (planningStage resolver catalog stream).resolveStream schedule 0 db
    (stream ++ loaded.rows)
  return ⟨results,db⟩

theorem iterResolved_of_load (resolver : ResolveCore) (catalog : ErrorCatalog) {dataset : String}
    {db : IdentityDb} {replayed : List (TransformResult MatchedRow)}
    (h : PendingCodec.loadPendingRows (db.pending.listPendingRows dataset) = .ok ⟨replayed,0⟩)
    (schedule : Nat → Tick) (stream : List (TransformResult MatchedRow)) :
    iterResolved resolver catalog dataset schedule db stream =
      .ok ⟨((planningStage resolver catalog stream).resolveStream schedule 0 db
          (stream ++ replayed)).1,
        ((planningStage resolver catalog stream).resolveStream schedule 0 db
          (stream ++ replayed)).2⟩ := by
  simp [iterResolved, h, bind, Except.bind, pure, Except.pure]

/-- The results of a planning run at the positions of the source. -/
theorem iterResolved_get {resolver : ResolveCore} {catalog : ErrorCatalog} {dataset : String}
    {schedule : Nat → Tick} {db : IdentityDb} {stream : List (TransformResult MatchedRow)}
    {planned : Planned} (h : iterResolved resolver catalog dataset schedule db stream = .ok planned)
    {k : Nat} {m : TransformResult MatchedRow} (hk : stream[k]? = some m) :
    ∃ db', planned.results[k]? = some
      ((planningStage resolver catalog stream).resolveRow (schedule k).clock db' m).1 := by
  simp only [iterResolved, bind, Except.bind, pure, Except.pure] at h
  split at h
  · cases h
  · cases h
    have hlen := (List.getElem?_eq_some_iff.mp hk).1
    rename_i loaded _
    refine ⟨(planningStage resolver catalog stream).dbBefore schedule 0 db
      (stream ++ loaded.rows) k,?_⟩
    dsimp only
    rw [ResolveStage.resolveStream_get, List.getElem?_append_left hlen, hk, Option.map_some,
      Nat.zero_add]

end NexusEtl
