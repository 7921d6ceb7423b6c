import NexusEtl.History

/-!
# Who closes whose links

A row that resolved without a pending link closes every pending link that bears
its row identifier. Row identifiers are line numbers, so the closing is confined
to the row's own links exactly when no other source row has a pending link with
this identifier at that moment.
-/

set_option autoImplicit false

namespace NexusEtl
open NexusEtl.Library

namespace World

/-- A pending link that was created for another source row survives the step, and the row
behind it is still listed for replay. -/
def ClosesOwnLinksOnly (w : World) : Event → Prop
  | .resolve r => (w.outcome r).closed = true →
      ∀ l ∈ w.db.pending.rows, l.status = .pending → w.owner l.pendingId ≠ some r.row →
        l ∈ (w.step (.resolve r)).db.pending.rows ∧
          (l.payload.isSome → l.sourceRowId ∈
            ((w.step (.resolve r)).db.pending.listPendingRows l.dataset).map
              PendingRow.sourceRowId)
  | _ => True

/-- At the time a row closes its links, every pending link with its identifier is its own. -/
def RowIdUnshared (w : World) : Event → Prop
  | .resolve r => (w.outcome r).closed = true →
      ∀ l ∈ w.db.pending.rows, l.status = .pending → l.sourceRowId = r.call.rowId →
        w.owner l.pendingId = some r.row
  | _ => True

theorem step_closed {w : World} {r : RowStep} (h : (w.outcome r).closed = true) :
    (w.step (.resolve r)).db.pending =
      w.db.pending.markResolvedForSource r.call.rowId r.call.clock.now := by
  obtain ⟨hreq,_⟩ := r.core.resolve_closed h
  have hsame : w.requested r = w := by
    unfold requested
    rw [show (w.outcome r).requests = [] from hreq]
    rfl
  rw [step_resolve, if_pos h, hsame]
  rfl

theorem mem_markResolvedForSource {t : PendingTable} {rowId now : String} {l : PendingLink}
    (hl : l ∈ t.rows) (hs : l.status = .pending) :
    l ∈ (t.markResolvedForSource rowId now).rows ↔ l.sourceRowId ≠ rowId := by
  rw [PendingTable.markResolvedForSource, PendingTable.mem_modifyWhere]
  constructor
  · rintro (⟨hp,_⟩ | ⟨k,_,_,rfl⟩)
    · simpa [PendingTable.isPendingOf, hs] using hp
    · cases hs
  · intro h
    exact .inl ⟨by simp [PendingTable.isPendingOf, h],hl⟩

theorem closesOwnLinksOnly_iff (w : World) (e : Event) :
    ClosesOwnLinksOnly w e ↔ RowIdUnshared w e := by
  cases e with
  | resolve r =>
    constructor
    · intro h hclosed l hl hs hrow
      by_contra howner
      have hmem := (h hclosed l hl hs howner).1
      rw [step_closed hclosed] at hmem
      exact (mem_markResolvedForSource hl hs).mp hmem hrow
    · intro h hclosed l hl hs howner
      have hmem : l ∈ (w.step (.resolve r)).db.pending.rows := by
        rw [step_closed hclosed]
        exact (mem_markResolvedForSource hl hs).mpr fun hrow =>
          howner (h hclosed l hl hs hrow)
      exact ⟨hmem,PendingTable.mem_listed hmem hs⟩
  | sync s => exact Iff.rfl
  | sweep now stamp => exact Iff.rfl
  | purge cutoff => exact Iff.rfl

/-- A history leaves the links of other source rows alone exactly when no row closes its
links while another one waits under its identifier. -/
theorem closes_own_links_iff (es : List Event) :
    AllSteps step ClosesOwnLinksOnly init es ↔ AllSteps step RowIdUnshared init es :=
  ⟨AllSteps.mono fun w e => (closesOwnLinksOnly_iff w e).mp,
    AllSteps.mono fun w e => (closesOwnLinksOnly_iff w e).mpr⟩

/-- Line 2 of the organizations waits for its parent. -/
def branchWaits : RowStep :=
  { dataset := "organizations", source := "organizations.csv"
    core := plainCore [codeLink "parent" "organizations"]
    call := callOn (newRow 2 "line:2" "B1" (.str "org-1") [("parent",.str "ROOT")])
    replayable := newRow_replayable _ _ _ (by decide) (by decide) }

/-- Line 2 of the employees resolves. -/
def employeeResolves : RowStep :=
  { dataset := "employees", source := "employees.csv", core := plainCore []
    call := callOn (newRow 2 "line:2" "E1" (.str "emp-1") [("name",.str "Ann")])
    replayable := newRow_replayable _ _ _ (by decide) (by decide) }

/-- The link of the organization, as it stands when the employee is resolved. -/
def branchLink : PendingLink :=
  { pendingId := 1, dataset := "organizations", sourceRowId := "line:2", field := "parent"
    lookupKey := "code:ROOT", status := .pending, reason := none, attempts := 1
    createdAt := noon.now, lastAttemptAt := some noon.now, expiresAt := none
    payload := some (PendingCodec.serialize branchWaits.call.matched [("parent",.str "ROOT")] []) }

/-- The employee closes the link of the organization. -/
theorem employee_closes_branch_link : ¬ ∀ es, AllSteps step ClosesOwnLinksOnly init es := by
  intro h
  obtain ⟨_,hclose,_⟩ := h [.resolve branchWaits,.resolve employeeResolves]
  have hmem := hclose (by decide) branchLink (by decide) rfl (by decide)
  exact absurd hmem.1 (by decide)

end World
end NexusEtl
