import NexusEtl.PendingOwnership

/-!
# Which rows a planning run replays

Links are stored under the target dataset of their rule and replayed under the
planned dataset. While rows leave links only under their own dataset, and no two
source rows of a dataset wait under one identifier, the table says of each
pending link where its row belongs, and a replay returns just the waiting rows.
-/

set_option autoImplicit false

namespace NexusEtl
open NexusEtl.Library

namespace World

/-- Pending links stand under the dataset of their row, and links of a dataset that share
a row identifier belong to one row. -/
structure Separated (w : World) : Prop where
  home : ∀ l ∈ w.db.pending.rows, l.status = .pending → ∀ o, w.owner l.pendingId = some o →
    o.dataset = l.dataset
  unmixed : ∀ l ∈ w.db.pending.rows, ∀ k ∈ w.db.pending.rows, l.status = .pending →
    k.status = .pending → l.dataset = k.dataset → l.sourceRowId = k.sourceRowId →
    w.owner l.pendingId = w.owner k.pendingId

/-- No other row of the dataset waits under the identifier of the row. -/
def Alone (w : World) (o : SourceRow) : Prop :=
  ∀ l ∈ w.db.pending.rows, l.status = .pending → l.dataset = o.dataset →
    l.sourceRowId = o.rowId → w.owner l.pendingId = some o

theorem Separated.of_pending {w : World} (h : w.Separated) {t : PendingTable}
    (ht : ∀ l ∈ t.rows, l.status = .pending → l ∈ w.db.pending.rows) :
    (w.withPending t).Separated :=
  ⟨fun l hl hs => h.home l (ht l hl hs) hs,fun l hl k hk hs hs' =>
    h.unmixed l (ht l hl hs) k (ht k hk hs') hs hs'⟩

theorem Separated.closing {w : World} (h : w.Separated) (p : PendingLink → Bool)
    (status : PendingStatus) (hstatus : status ≠ .pending) (reason : Option String)
    (now : String) :
    (w.withPending (w.db.pending.modifyWhere p (PendingTable.closed status reason now)
      (PendingTable.closed_pendingId _ _ _))).Separated :=
  h.of_pending fun _ hl hs => (PendingTable.open_of_closing hl hs hstatus).2

/-- A request under the planned dataset, by a row that is alone there. -/
theorem request_owned {w : World} {r : RowStep} {req : PendingRequest} (h : RequestOf r req)
    (hd : req.dataset = r.dataset) (ha : w.Alone r.row) (maxAttempts : Int) (now : String) :
    ∃ m, PendingTable.Requested req w.db.pending
        (request r.row maxAttempts now w req).db.pending m ∧
      (m.status = .pending ∨ m.status = .conflict) ∧
      (∀ l ∈ w.db.pending.rows,
        (request r.row maxAttempts now w req).owner l.pendingId = w.owner l.pendingId) ∧
      (request r.row maxAttempts now w req).owner m.pendingId = some r.row ∧
      ∀ l ∈ w.db.pending.rows, l.pendingId = m.pendingId → l.status = .pending := by
  obtain ⟨m,hm,hstatus,howner,hown⟩ := request_cases (w := w) h maxAttempts now
  have hopen : ∀ k ∈ w.db.pending.rows, PendingTable.isOpenFor req k = true →
      w.owner k.pendingId = some r.row := fun k hk hopen => by
    obtain ⟨hkd,hkr,_,_,hks⟩ := PendingTable.isOpenFor_iff.mp hopen
    exact ha k hk hks (hkd.trans hd) (hkr.trans h.sourceRowId)
  refine ⟨m,hm,hstatus,howner,?_,?_⟩
  · rcases hown with hown | ⟨k,hk,hid,hko⟩
    · exact hown
    · rw [← hid, howner k hk]
      exact hopen k hk hko
  · intro l hl hid
    rcases hm.origin with ⟨hnew,_⟩ | ⟨_,k,hk,hkid,hko⟩
    · exact absurd (w.db.pending.lt_nextId hl) (by omega)
    · rw [w.db.pending.eq_of_pendingId hl hk (hid.trans hkid.symm)]
      exact (PendingTable.isOpenFor_iff.mp hko).2.2.2.2

theorem Separated.request {w : World} (h : w.Separated) {r : RowStep} (ha : w.Alone r.row)
    {req : PendingRequest} (hreq : RequestOf r req) (hd : req.dataset = r.dataset)
    (maxAttempts : Int) (now : String) :
    (request r.row maxAttempts now w req).Separated ∧
      (request r.row maxAttempts now w req).Alone r.row := by
  obtain ⟨m,hm,_,howner,hown,_⟩ := request_owned hreq hd ha maxAttempts now
  have hmd : m.dataset = r.dataset := hm.dataset.trans hd
  have hmr : m.sourceRowId = r.call.rowId := hm.sourceRowId.trans hreq.sourceRowId
  have hcase : ∀ l ∈ (w.request r.row maxAttempts now req).db.pending.rows,
      l = m ∨ l ∈ w.db.pending.rows := by
    intro l hl
    by_cases hid : l.pendingId = m.pendingId
    · exact .inl (PendingTable.eq_of_pendingId _ hl hm.mem hid)
    · exact .inr ((hm.others l hid).mp hl)
  have halone : (w.request r.row maxAttempts now req).Alone r.row := by
    intro l hl hs hld hlr
    rcases hcase l hl with rfl | hl
    · exact hown
    · rw [howner l hl]
      exact ha l hl hs hld hlr
  refine ⟨⟨?_,?_⟩,halone⟩
  · intro l hl hs o ho
    rcases hcase l hl with rfl | hl
    · rw [hown] at ho
      cases ho
      exact hmd.symm
    · rw [howner l hl] at ho
      exact h.home l hl hs o ho
  · intro l hl k hk hs hs' hdd hrr
    rcases hcase l hl with rfl | hlold
    · rw [hown]
      exact (halone k hk hs' (hdd.symm.trans hmd) (hrr.symm.trans hmr)).symm
    · rcases hcase k hk with rfl | hkold
      · rw [hown]
        exact halone l hl hs (hdd.trans hmd) (hrr.trans hmr)
      · rw [howner l hlold, howner k hkold]
        exact h.unmixed l hlold k hkold hs hs' hdd hrr

/-- The links that a row leaves stand under the dataset that is planned, and no other row of
the dataset waits under its identifier when it leaves one. -/
def StaysHome (w : World) : Event → Prop
  | .resolve r => (∀ req ∈ (w.outcome r).requests, req.dataset = r.dataset) ∧
      ((w.outcome r).requests ≠ [] → w.Alone r.row)
  | _ => True

theorem Separated.requested {w : World} (h : w.Separated) {r : RowStep}
    (hs : StaysHome w (.resolve r)) : (w.requested r).Separated := by
  by_cases hreq : (w.outcome r).requests = []
  · unfold World.requested
    rw [hreq]
    exact h
  · exact (requested_invariant (I := fun v => v.Separated ∧ v.Alone r.row) hs.1
      (fun v req hv hreq => hv.1.request hv.2 hreq.1 hreq.2 _ _) ⟨h,hs.2 hreq⟩).1

theorem Separated.step {w : World} (h : w.Separated) {e : Event} (hs : StaysHome w e) :
    (w.step e).Separated := by
  cases e with
  | resolve r =>
    rw [step_resolve]
    split
    · exact (h.requested hs).closing _ _ (by simp) _ _
    · exact h.requested hs
  | sync s =>
    have hclosed := h.closing (s.syncer.closes s.dataset s.resolvedId s.keyValues) .resolved
      (by simp) none s.now
    rw [← IdentityIndexSyncer.sync_pending s.syncer w.db s.dataset s.resolvedId s.keyValues
      s.now] at hclosed
    exact ⟨hclosed.home,hclosed.unmixed⟩
  | sweep now stamp => exact h.closing _ _ (by simp) _ _
  | purge cutoff => exact h.of_pending fun l hl _ => (List.mem_filter.mp hl).1

theorem init_separated : init.Separated :=
  ⟨by simp [init, IdentityDb.empty, PendingTable.empty],
    by simp [init, IdentityDb.empty, PendingTable.empty]⟩

/-- The row became pending in a planning run of its dataset and still is. -/
def Waits (w : World) (o : SourceRow) : Prop :=
  ∃ l ∈ w.db.pending.rows, l.status = .pending ∧ l.payload.isSome ∧
    w.owner l.pendingId = some o

/-- What a loaded result says of the listed row it was read from. -/
def Replays (row : PendingRow) (r : TransformResult MatchedRow) : Prop :=
  ∃ matched desired metadata, PendingCodec.Replayable matched ∧
    matched.rowRef.rowId = row.sourceRowId ∧
    row.payload = PendingCodec.serialize matched desired metadata ∧
    r = PendingCodec.replayedResult (PendingCodec.replayedRow matched desired) []

/-- Every listed row of a reachable store can be loaded. -/
theorem Sound.load {w : World} (h : w.Sound) (dataset : String) :
    ∃ results, PendingCodec.loadPendingRows (w.db.pending.listPendingRows dataset) =
      .ok ⟨results,0⟩ ∧ List.Forall₂ Replays (w.db.pending.listPendingRows dataset) results := by
  refine PendingCodec.loadPendingRows_of fun row hrow => ?_
  obtain ⟨l,hl,hrowId,hp⟩ := PendingTable.mem_listPendingRows hrow
  obtain ⟨matched,desired,metadata,hr,hm,hpay⟩ :=
    h.payload l (PendingTable.mem_replayLinks hl).1
  rw [hp, Option.some.injEq] at hpay
  exact ⟨_,by rw [hpay]; exact PendingCodec.loadPayload_serialize hr desired metadata,
    matched,desired,metadata,hr,hm.trans hrowId,hpay,rfl⟩

/-- The rows that `iter_resolved` appends for a dataset are the rows that wait in it: the
links that stand for them belong to those rows and to no others, each row identifier comes
once, and the loaded results bear the identifiers in this order. -/
structure ReplayExact (w : World) (dataset : String) : Prop where
  owners : ∀ o, (∃ l ∈ w.db.pending.replayLinks dataset, w.owner l.pendingId = some o) ↔
    o.dataset = dataset ∧ w.Waits o
  once : ((w.db.pending.replayLinks dataset).map PendingLink.sourceRowId).Nodup
  loaded : ∃ results,
    PendingCodec.loadPendingRows (w.db.pending.listPendingRows dataset) = .ok ⟨results,0⟩ ∧
      results.map (fun r => r.record.recordId) =
        (w.db.pending.replayLinks dataset).map PendingLink.sourceRowId

theorem replayExact_of {w : World} (hsound : w.Sound) (h : w.Separated) (dataset : String) :
    w.ReplayExact dataset where
  owners o := by
    constructor
    · rintro ⟨l,hl,ho⟩
      obtain ⟨hmem,hrep⟩ := PendingTable.mem_replayLinks hl
      obtain ⟨hd,hs,hp⟩ := PendingTable.isReplayable_iff.mp hrep
      exact ⟨(h.home l hmem hs o ho).trans hd,l,hmem,hs,hp,ho⟩
    · rintro ⟨hd,l,hmem,hs,hp,ho⟩
      have hld : l.dataset = dataset := (h.home l hmem hs o ho).symm.trans hd
      obtain ⟨m,hm,hrow⟩ := PendingTable.exists_replayLinks hmem
        (PendingTable.isReplayable_iff.mpr ⟨hld,hs,hp⟩)
      obtain ⟨hmmem,hmrep⟩ := PendingTable.mem_replayLinks hm
      obtain ⟨hmd,hms,_⟩ := PendingTable.isReplayable_iff.mp hmrep
      exact ⟨m,hm,(h.unmixed m hmmem l hmem hms hs (hmd.trans hld.symm) hrow).trans ho⟩
  once := w.db.pending.replayLinks_nodup dataset
  loaded := by
    obtain ⟨results,hload,hall⟩ := hsound.load dataset
    refine ⟨results,hload,?_⟩
    rw [← PendingTable.listPendingRows_sourceRowIds]
    clear hload
    generalize w.db.pending.listPendingRows dataset = rows at hall
    induction hall with
    | nil => rfl
    | cons hrow _ ih =>
      obtain ⟨matched,desired,_,_,hm,_,rfl⟩ := hrow
      simp only [List.map_cons, ih, ← hm]
      rfl

/-- In a history whose rows leave links only at home, every replay returns exactly the rows
that wait in the replayed dataset. -/
theorem replay_exact (es : List Event) (h : AllSteps step StaysHome init es)
    (dataset : String) : (after es).ReplayExact dataset :=
  replayExact_of (after_sound es)
    (run_invariant (fun _ _ hw hs => hw.step hs) init_separated h) dataset

/-- An employee waits for a manager in its own dataset. -/
def employeeWaits : RowStep :=
  { dataset := "employees", source := "employees.csv"
    core := plainCore [codeLink "manager" "employees"]
    call := callOn (newRow 3 "line:3" "E2" (.str "emp-2") [("manager",.str "E1")])
    replayable := newRow_replayable _ _ _ (by decide) (by decide) }

theorem replay_exact_employee : (after [.resolve employeeWaits]).ReplayExact "employees" :=
  replay_exact [.resolve employeeWaits]
    ⟨⟨by decide,fun _ l hl => by simp [init, IdentityDb.empty, PendingTable.empty] at hl⟩,
      trivial⟩ "employees"

/-- An employee waits for an organization: its link stands under the other dataset. -/
def employeeWaitsAbroad : RowStep :=
  { employeeWaits with core := plainCore [codeLink "manager" "organizations"] }

/-- The employee that waits abroad is not replayed. -/
theorem employee_abroad_not_replayed :
    ¬ ∀ (es : List Event) (dataset : String), (after es).ReplayExact dataset := by
  intro h
  have howner := (h [.resolve employeeWaitsAbroad] "organizations").owners employeeWaitsAbroad.row
  have hreplayed : ∃ l ∈ (after [.resolve employeeWaitsAbroad]).db.pending.replayLinks
      "organizations", (after [.resolve employeeWaitsAbroad]).owner l.pendingId =
        some employeeWaitsAbroad.row := by decide
  exact absurd (howner.mp hreplayed).1 (by decide)

end World
end NexusEtl
