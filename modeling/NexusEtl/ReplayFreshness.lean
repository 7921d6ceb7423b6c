import NexusEtl.PlanningHistory

/-!
# What a replayed row is planned as

A pending payload keeps the match decision and the existing record that its row
had when it was left pending. A replay enters after the matcher, so these parts,
and not the cache at the time of the replay, decide the operation.
-/

set_option autoImplicit false

namespace NexusEtl
open NexusEtl.Library

namespace World

/-- Every payload in the store was written by a row of the history. -/
def Written (es : List Event) (w : World) : Prop :=
  ∀ l ∈ w.db.pending.rows, ∃ r desired, Event.resolve r ∈ es ∧
    l.payload = some (PendingCodec.serialize r.call.matched desired r.call.metadata)

theorem Written.of_images {es : List Event} {w : World} (h : Written es w) {t : PendingTable}
    (ht : ∀ l ∈ t.rows, ∃ k ∈ w.db.pending.rows, k.payload = l.payload) :
    Written es (w.withPending t) := by
  intro l hl
  obtain ⟨k,hk,hpay⟩ := ht l hl
  exact hpay ▸ h k hk

theorem Written.closing {es : List Event} {w : World} (h : Written es w)
    (p : PendingLink → Bool) (status : PendingStatus) (reason : Option String) (now : String) :
    Written es (w.withPending (w.db.pending.modifyWhere p
      (PendingTable.closed status reason now) (PendingTable.closed_pendingId _ _ _))) :=
  h.of_images fun _ hl => by
    obtain ⟨k,hk,_,_,_,hpay,_⟩ := image_modifyWhere hl
    exact ⟨k,hk,hpay⟩

theorem Written.request {es : List Event} {w : World} (h : Written es w) {r : RowStep}
    (hr : Event.resolve r ∈ es) {req : PendingRequest} (hreq : RequestOf r req)
    (maxAttempts : Int) (now : String) : Written es (w.request r.row maxAttempts now req) := by
  obtain ⟨m,hm,_⟩ := request_cases (w := w) hreq maxAttempts now
  intro l hl
  by_cases hid : l.pendingId = m.pendingId
  · obtain ⟨desired,hp⟩ := hreq.payload
    rw [PendingTable.eq_of_pendingId _ hl hm.mem hid]
    exact ⟨r,desired,hr,hm.payload.trans hp⟩
  · exact h l ((hm.others l hid).mp hl)

theorem Written.requested {es : List Event} {w : World} (h : Written es w) {r : RowStep}
    (hr : Event.resolve r ∈ es) : Written es (w.requested r) :=
  requested_invariant (Q := fun _ => True) (fun _ _ => trivial)
    (fun _ _ hv hreq => hv.request hr hreq.1 _ _) h

theorem Written.step {es : List Event} {w : World} (h : Written es w) {e : Event}
    (he : e ∈ es) : Written es (w.step e) := by
  cases e with
  | resolve r =>
    rw [step_resolve]
    split
    · exact (h.requested he).closing _ _ _ _
    · exact h.requested he
  | sync s =>
    have hclosed := h.closing (s.syncer.closes s.dataset s.resolvedId s.keyValues) .resolved none
      s.now
    rwa [← IdentityIndexSyncer.sync_pending s.syncer w.db s.dataset s.resolvedId s.keyValues
      s.now] at hclosed
  | sweep now stamp => exact h.closing _ _ _ _
  | purge cutoff => exact h.of_images fun l hl => ⟨l,(List.mem_filter.mp hl).1,rfl⟩

theorem after_written (es : List Event) : Written es (after es) :=
  run_invariant (G := fun _ e => e ∈ es) (fun _ _ h he => h.step he)
    (by simp [Written, init, IdentityDb.empty, PendingTable.empty])
    (allSteps_of_mem (fun _ he => he) init)

end World

/-- The operation of an item is the one that the resolver chooses for a match result: a
creation exactly when the result says not found, and an update by the difference from the
existing record that the result carries. -/
structure DecidedBy (resolver : ResolveCore) (matched : MatchedRow) (item : PlanItem) : Prop where
  create : item.op = .create ↔ matched.matchDecision.status = .notFound
  update : item.op = .update ↔ matched.matchDecision.status = .matched
  changes : item.op = .update →
    resolver.diffOf matched item.desiredState = .ok item.changes ∧ item.changes ≠ []

theorem decidedBy_of_item {stage : ResolveStage} {clock : Clock} {db : IdentityDb}
    {m : TransformResult MatchedRow} {row : MatchedRow} {item : PlanItem} (hm : m.row = some row)
    (h : PlanBuilder.itemOf (stage.resolveRow clock db m).1 = some item) :
    DecidedBy stage.resolver row item := by
  obtain ⟨row',resolved,_,hrow,hres,hconflict,hskip,rfl⟩ := itemOf_resolveRow h
  rw [hm, Option.some.injEq] at hrow
  subst hrow
  obtain ⟨s,hentered,hbuilt,_⟩ := ResolveCore.resolve_row hres rfl
  obtain ⟨_,_,hdesired,_,hop⟩ := ResolveCore.buildResolvedRow_spec hbuilt.built
  have hcreate : resolved.op = .create ↔ row.matchDecision.status = .notFound :=
    (ResolveCore.decideOp_create hop).1
  have hitem : (PlanBuilder.serializePlanItem resolved).op = .create ↔
      resolved.op = .create := by
    simp [PlanBuilder.serializePlanItem]
  have hupdate : (PlanBuilder.serializePlanItem resolved).op = .update ↔
      resolved.op ≠ .create := by
    simp [PlanBuilder.serializePlanItem]
  have hstatus : row.matchDecision.status = .matched ∨ row.matchDecision.status = .notFound :=
    hentered.status
  refine ⟨hitem.trans hcreate,?_,fun hu => ?_⟩
  · rw [hupdate, Ne, hcreate]
    rcases hstatus with hs | hs <;> simp [hs]
  · have hop' : resolved.op = .update := by
      have := hupdate.mp hu
      cases hval : resolved.op <;> simp_all
    rw [hop'] at hop
    simp only [PlanBuilder.serializePlanItem, hdesired]
    exact ResolveCore.decideOp_update hop

namespace World

/-- Every replayed row stems from a row of the history, and whatever the stores hold at the
time of the replay, its operation is decided by the match result of that row. -/
theorem replayed_op (es : List Event) (dataset : String) :
    ∃ results, PendingCodec.loadPendingRows ((after es).db.pending.listPendingRows dataset) =
        .ok ⟨results,0⟩ ∧
      ∀ m ∈ results, ∃ r desired, Event.resolve r ∈ es ∧
        m = PendingCodec.replayedResult
          (PendingCodec.replayedRow r.call.matched desired) [] ∧
        ∀ (stage : ResolveStage) (clock : Clock) (db : IdentityDb) (item : PlanItem),
          PlanBuilder.itemOf (stage.resolveRow clock db m).1 = some item →
            DecidedBy stage.resolver r.call.matched item := by
  have hload : ∀ row ∈ (after es).db.pending.listPendingRows dataset, ∃ m,
      PendingCodec.loadPayload row.payload = .ok (some m) ∧ ∃ r desired, Event.resolve r ∈ es ∧
        m = PendingCodec.replayedResult (PendingCodec.replayedRow r.call.matched desired) [] := by
    intro row hrow
    obtain ⟨l,hl,_,hp⟩ := PendingTable.mem_listPendingRows hrow
    obtain ⟨r,desired,hr,hpay⟩ := after_written es l (PendingTable.mem_replayLinks hl).1
    rw [hp, Option.some.injEq] at hpay
    exact ⟨_,by rw [hpay]; exact PendingCodec.loadPayload_serialize r.replayable desired _,
      r,desired,hr,rfl⟩
  obtain ⟨results,hresults,hall⟩ := PendingCodec.loadPendingRows_of hload
  refine ⟨results,hresults,fun m hm => ?_⟩
  obtain ⟨_,_,r,desired,hr,rfl⟩ := PendingCodec.exists_loaded hall hm
  refine ⟨r,desired,hr,rfl,fun stage clock db item hitem => ?_⟩
  obtain ⟨hcreate,hupdate,hchanges⟩ := decidedBy_of_item rfl hitem
  exact ⟨hcreate,hupdate,hchanges⟩

/-- A row that was matched and left pending, and one of the loaded rows that replay it. -/
structure Rerun where
  es : List Event
  left : RowStep
  matcher : MatchCore
  enriched : TransformResult Fields
  dataset : String
  results : List (TransformResult MatchedRow)
  replayed : TransformResult MatchedRow
  resolved : Event.resolve left ∈ es
  matched : (matcher.matchRow enriched).map TransformResult.row = .ok (some left.call.matched)
  loaded : PendingCodec.loadPendingRows ((after es).db.pending.listPendingRows dataset) =
    .ok ⟨results,0⟩
  listed : replayed ∈ results
  same : replayed.row.map MatchedRow.rowRef = some left.call.matched.rowRef

namespace Rerun

variable (x : Rerun)

/-- The operation planned for the replayed row. -/
def op (stage : ResolveStage) (clock : Clock) : Option Operation :=
  (PlanBuilder.itemOf (stage.resolveRow clock (after x.es).db x.replayed).1).map PlanItem.op

/-- The operation that match and resolve choose for the source row against a cache. -/
def freshOp (find : String → Fields → Bool → Except PyException (List Fields))
    (stage : ResolveStage) (clock : Clock) : Option Operation :=
  match { x.matcher with find := find }.matchRow x.enriched with
  | .error _ => none
  | .ok m => (PlanBuilder.itemOf (stage.resolveRow clock (after x.es).db m).1).map PlanItem.op

end Rerun

def employeeSource : TransformResult Fields :=
  sourceRow 3 "line:3" [("code",.str "E2"),("name",.str "Bob"),("manager",.str "E1"),
    ("target_id",.str "emp-2")]

/-- The employee before it is in the cache. -/
def unknownEmployee : MatchedRow :=
  { newRow 3 "line:3" "E2" (.str "emp-2") [("code",.str "E2"),("name",.str "Bob"),
      ("manager",.str "E1")] with
    fingerprint := "code=E2 name=Bob manager=E1"
    fingerprintFields := ["code","manager","name"]
    matchDecision :=
      { (newRow 3 "line:3" "E2" .null []).matchDecision with
        metadata := [("match_mode",.str "exact"),("topology_applied",.bool false)] } }

/-- It is planned in part, its manager is not known yet. -/
def partialEmployee : RowStep :=
  { employeeWaits with
    core := { employeeWaits.core with settings := ⟨0,0,true⟩ }
    call := callOn unknownEmployee
    replayable := ⟨rfl,by decide,by decide,by decide,by decide,by decide,by decide,by decide,
      by decide⟩ }

/-- Its creation is applied and the index learns its code. -/
def employeeApplied : SyncStep :=
  ⟨⟨[("employees",["code"])],[]⟩,"employees",.str "emp-2",[("code",.str "E2")],noon.now⟩

/-- The record that its creation leaves in the cache. -/
def employeeRecord : Fields :=
  [("_id",.str "emp-2"),("code",.str "E2"),("name",.str "Bob"),("manager",.str "E1")]

def employeeAgain : Rerun :=
  { es := [.resolve partialEmployee,.sync employeeApplied]
    left := partialEmployee
    matcher := fieldMatcher ["code"] []
    enriched := employeeSource
    dataset := "employees"
    results := [arriving unknownEmployee]
    replayed := arriving unknownEmployee
    resolved := List.mem_cons_self
    matched := by decide
    loaded := by decide
    listed := List.mem_cons_self
    same := rfl }

/-- Planned in part and created, the employee is created again by its replay, where match and
resolve find it unchanged in the cache. -/
theorem employee_created_again :
    (¬ ∀ (x : Rerun) (find : String → Fields → Bool → Except PyException (List Fields))
      (stage : ResolveStage) (clock : Clock), x.op stage clock = x.freshOp find stage clock) ∧
    ¬ ∀ (x : Rerun) (stage : ResolveStage) (clock : Clock) (records : List Fields)
      (record : Fields), x.left.call.matched.matchDecision.status = .notFound →
        findIn records x.left.dataset [(x.left.call.matched.identity.primary,
          .str x.left.call.matched.identity.primaryValue)] false = .ok [record] →
        x.op stage clock ≠ some .create := by
  have hop : employeeAgain.op ⟨partialEmployee.core,[],[]⟩ noon = some .create := by
    decide
  refine ⟨fun h => ?_,fun h => ?_⟩
  · have hfresh : employeeAgain.freshOp (findIn [employeeRecord])
        ⟨partialEmployee.core,[],[]⟩ noon = none := by decide
    have heq := h employeeAgain (findIn [employeeRecord]) ⟨partialEmployee.core,[],[]⟩ noon
    rw [hop, hfresh] at heq
    cases heq
  · exact h employeeAgain ⟨partialEmployee.core,[],[]⟩ noon [employeeRecord] employeeRecord rfl
      (by decide) hop

end World
end NexusEtl
