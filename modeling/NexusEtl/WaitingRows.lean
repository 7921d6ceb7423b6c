import NexusEtl.PendingReplay

/-!
# A waiting row is not lost

A row that a run dropped because a link was pending stays listed for replay
until it is emitted, or a link of it expires or ends in conflict. Three writers
share the status column: the planner, the sweep and the identity syncer. The
argument needs of each step that it closes no last link of a row it does not
emit; the syncer gives no such guarantee of its own.
-/

set_option autoImplicit false

namespace NexusEtl
open NexusEtl.Library

namespace World

/-- A pending link of the row stands, with a payload, under the row's dataset. -/
def Live (w : World) (o : SourceRow) : Prop :=
  ∃ l ∈ w.db.pending.rows, l.status = .pending ∧ l.payload.isSome ∧ l.dataset = o.dataset ∧
    w.owner l.pendingId = some o

/-- Between two states a link of the row expired or ended in conflict. -/
def EndedSince (v w : World) (o : SourceRow) : Prop :=
  ∃ l ∈ w.db.pending.rows, w.owner l.pendingId = some o ∧
    (l.status = .expired ∨ l.status = .conflict) ∧
    ∀ k ∈ v.db.pending.rows, k.pendingId = l.pendingId → k.status = .pending

/-- No closed link of the first state is pending in the second. -/
structure Later (v w : World) : Prop where
  nextId : v.db.pending.nextId ≤ w.db.pending.nextId
  closed : ∀ l ∈ w.db.pending.rows, l.status = .pending →
    ∀ k ∈ v.db.pending.rows, k.pendingId = l.pendingId → k.status = .pending

theorem Later.refl (w : World) : Later w w :=
  ⟨Nat.le_refl _,fun l hl hs k hk hid => by rwa [w.db.pending.eq_of_pendingId hk hl hid]⟩

/-- The link of a request had been open, if it was there at all. -/
theorem open_before {v w : World} (h : Later v w) {req : PendingRequest} {t' : PendingTable}
    {m : PendingLink} (hm : PendingTable.Requested req w.db.pending t' m) :
    ∀ k ∈ v.db.pending.rows, k.pendingId = m.pendingId → k.status = .pending := by
  intro k hk hid
  rcases hm.origin with ⟨hnew,_⟩ | ⟨_,l,hl,hlid,hopen⟩
  · have hlt := v.db.pending.lt_nextId hk
    have hle := h.nextId
    omega
  · exact h.closed l hl (PendingTable.isOpenFor_iff.mp hopen).2.2.2.2 k hk (hid.trans hlid.symm)

theorem Later.request {v w : World} (h : Later v w) {r : RowStep} {req : PendingRequest}
    (hreq : RequestOf r req) (maxAttempts : Int) (now : String) :
    Later v (w.request r.row maxAttempts now req) := by
  obtain ⟨m,hm,_,_,_⟩ := request_cases (w := w) hreq maxAttempts now
  refine ⟨Nat.le_trans h.nextId (nextId_le_request _ _ _ _),?_⟩
  intro l hl hs k hk hid
  by_cases hlm : l.pendingId = m.pendingId
  · exact open_before h hm k hk (hid.trans hlm)
  · exact h.closed l ((hm.others l hlm).mp hl) hs k hk hid

/-- A request of any row keeps the waiting link of a row, or ends it in conflict. -/
theorem Live.request {v w : World} (hv : Later v w) {o : SourceRow}
    (h : w.Live o ∨ EndedSince v w o) {r : RowStep} {req : PendingRequest}
    (hreq : RequestOf r req) (maxAttempts : Int) (now : String) :
    (w.request r.row maxAttempts now req).Live o ∨
      EndedSince v (w.request r.row maxAttempts now req) o := by
  obtain ⟨m,hm,hstatus,howner,_⟩ := request_cases (w := w) hreq maxAttempts now
  have hopen : ∀ l ∈ w.db.pending.rows, l.pendingId = m.pendingId →
      PendingTable.isOpenFor req l = true := by
    intro l hl hid
    rcases hm.origin with ⟨hnew,_⟩ | ⟨_,k,hk,hkid,hopen⟩
    · exact absurd (w.db.pending.lt_nextId hl) (by omega)
    · rwa [w.db.pending.eq_of_pendingId hl hk (hid.trans hkid.symm)]
  rcases h with ⟨l,hl,hs,hp,hd,ho⟩ | ⟨l,hl,ho,hend,hk⟩
  · by_cases hid : l.pendingId = m.pendingId
    · have hown : (w.request r.row maxAttempts now req).owner m.pendingId = some o := by
        rw [← hid, howner l hl]
        exact ho
      rcases hstatus with hstatus | hstatus
      · have hmd : m.dataset = o.dataset := by
          rw [hm.dataset, ← (PendingTable.isOpenFor_iff.mp (hopen l hl hid)).1]
          exact hd
        exact .inl ⟨m,hm.mem,hstatus,by rw [hm.payload]; exact hreq.isSome,hmd,hown⟩
      · exact .inr ⟨m,hm.mem,hown,.inr hstatus,open_before hv hm⟩
    · exact .inl ⟨l,(hm.others l hid).mpr hl,hs,hp,hd,by rw [howner l hl]; exact ho⟩
  · have hid : l.pendingId ≠ m.pendingId := by
      intro hid
      have hs := (PendingTable.isOpenFor_iff.mp (hopen l hl hid)).2.2.2.2
      rcases hend with hend | hend <;> rw [hs] at hend <;> cases hend
    exact .inr ⟨l,(hm.others l hid).mpr hl,by rw [howner l hl]; exact ho,hend,hk⟩

/-- The first request of a row that is alone in its dataset makes the row wait. -/
theorem Live.start {v w : World} (hv : Later v w) {r : RowStep} (ha : w.Alone r.row)
    {req : PendingRequest} (hreq : RequestOf r req) (hd : req.dataset = r.dataset)
    (maxAttempts : Int) (now : String) :
    (w.request r.row maxAttempts now req).Live r.row ∨
      EndedSince v (w.request r.row maxAttempts now req) r.row := by
  obtain ⟨m,hm,hstatus,_,hown,_⟩ := request_owned hreq hd ha maxAttempts now
  rcases hstatus with hstatus | hstatus
  · exact .inl ⟨m,hm.mem,hstatus,by rw [hm.payload]; exact hreq.isSome,hm.dataset.trans hd,hown⟩
  · exact .inr ⟨m,hm.mem,hown,.inr hstatus,open_before hv hm⟩

/-- What a step must leave alone: rows request at home and close only their own links, and
a sync closes no link that is the last one its row waits on. -/
def KeepsWaiting (w : World) : Event → Prop
  | .resolve r => StaysHome w (.resolve r) ∧ RowIdUnshared w (.resolve r)
  | .sync s => ∀ l ∈ w.db.pending.rows, l.payload.isSome →
      s.syncer.closes s.dataset s.resolvedId s.keyValues l = true →
      ∃ k ∈ w.db.pending.rows, k.status = .pending ∧ k.payload.isSome ∧
        k.dataset = l.dataset ∧ w.owner k.pendingId = w.owner l.pendingId ∧
        s.syncer.closes s.dataset s.resolvedId s.keyValues k = false
  | _ => True

/-- The row is resolved and emitted. -/
def Emits (w : World) (o : SourceRow) : Event → Prop
  | .resolve r => r.row = o ∧ ∃ row, (w.outcome r).result = .ok ⟨some row,[],[]⟩
  | _ => False

/-- The row is emitted by the step, or a link of it expires or ends in conflict there. -/
def Discharges (o : SourceRow) (w : World) (e : Event) : Prop :=
  w.Emits o e ∨ EndedSince w (w.step e) o

/-- A planning run drops the row because a link is pending. -/
def Drops (w : World) (r : RowStep) : Prop :=
  ∃ res, (w.outcome r).result = .ok res ∧ res.row = none ∧
    ∃ d ∈ res.warnings, d.code = "RESOLVE_PENDING"

/-- The row is among the rows that are returned for replay, through a link of its own. -/
def Listed (w : World) (o : SourceRow) : Prop :=
  (∃ l ∈ w.db.pending.replayLinks o.dataset, w.owner l.pendingId = some o) ∧
    o.rowId ∈ (w.db.pending.listPendingRows o.dataset).map PendingRow.sourceRowId

theorem Live.listed {w : World} {o : SourceRow} (hsound : w.Sound) (hsep : w.Separated)
    (h : w.Live o) : w.Listed o := by
  obtain ⟨l,hl,hs,hp,hd,ho⟩ := h
  refine ⟨((replayExact_of hsound hsep o.dataset).owners o).mpr ⟨rfl,l,hl,hs,hp,ho⟩,?_⟩
  obtain ⟨p,hp',hrow⟩ := hsound.owned l hl
  rw [ho, Option.some.injEq] at hp'
  rw [hp', hrow, ← hp', ← hd]
  exact PendingTable.mem_listed hl hs hp

/-- The links of a row through the requests of one step. -/
theorem Live.requested {w : World} {o : SourceRow} (h : w.Live o) (r : RowStep) :
    (w.requested r).Live o ∨ EndedSince w (w.requested r) o :=
  (requested_invariant (I := fun v => Later w v ∧ (v.Live o ∨ EndedSince w v o))
    (Q := fun _ => True) (fun _ _ => trivial)
    (fun _ _ hv hreq => ⟨hv.1.request hreq.1 _ _,Live.request hv.1 hv.2 hreq.1 _ _⟩)
    ⟨Later.refl w,.inl h⟩).2

theorem Live.resolve {w : World} {o : SourceRow} (h : w.Live o) {r : RowStep}
    (hkeep : RowIdUnshared w (.resolve r)) :
    (w.step (.resolve r)).Live o ∨ Discharges o w (.resolve r) := by
  by_cases hclosed : (w.outcome r).closed = true
  · obtain ⟨hreq,row,hrow⟩ := r.core.resolve_closed hclosed
    obtain ⟨l,hl,hs,hp,hd,ho⟩ := h
    by_cases hid : l.sourceRowId = r.call.rowId
    · have hself := hkeep hclosed l hl hs hid
      rw [ho, Option.some.injEq] at hself
      exact .inr (.inl ⟨hself.symm,row,hrow⟩)
    · refine .inl ⟨l,?_,hs,hp,hd,?_⟩
      · rw [step_closed hclosed]
        exact (mem_markResolvedForSource hl hs).mpr hid
      · have hlt := w.db.pending.lt_nextId hl
        have hnot : ¬ (w.db.pending.nextId ≤ l.pendingId ∧
            l.pendingId < (w.outcome r).pending.nextId) := by omega
        simp only [step, claim, hnot, if_false, ho]
  · have hstep := h.requested r
    rw [← show w.step (.resolve r) = w.requested r by rw [step_resolve, if_neg hclosed]] at hstep
    exact hstep.imp_right .inr

/-- One step keeps a waiting row, or it discharges it. -/
theorem Live.step {w : World} {o : SourceRow} (h : w.Live o) {e : Event}
    (hkeep : KeepsWaiting w e) : (w.step e).Live o ∨ Discharges o w e := by
  cases e with
  | resolve r => exact h.resolve hkeep.2
  | sync s =>
    obtain ⟨l,hl,hs,hp,hd,ho⟩ := h
    have hstay : ∀ k ∈ w.db.pending.rows,
        s.syncer.closes s.dataset s.resolvedId s.keyValues k = false →
        k ∈ (w.step (.sync s)).db.pending.rows := by
      intro k hk hc
      simp only [World.step]
      rw [IdentityIndexSyncer.sync_pending]
      exact PendingTable.mem_modifyWhere.mpr (.inl ⟨hc,hk⟩)
    cases hc : s.syncer.closes s.dataset s.resolvedId s.keyValues l with
    | false => exact .inl ⟨l,hstay l hl hc,hs,hp,hd,ho⟩
    | true =>
      obtain ⟨k,hk,hks,hkp,hkd,hko,hkc⟩ := hkeep l hl hp hc
      exact .inl ⟨k,hstay k hk hkc,hks,hkp,hkd.trans hd,hko.trans ho⟩
  | sweep now stamp =>
    obtain ⟨l,hl,hs,hp,hd,ho⟩ := h
    have hrows : (w.step (.sweep now stamp)).db.pending = w.db.pending.modifyWhere
        (PendingTable.isExpired now) (PendingTable.closed .expired (some "expired") stamp)
        (PendingTable.closed_pendingId _ _ _) := rfl
    cases hx : PendingTable.isExpired now l with
    | false =>
      refine .inl ⟨l,?_,hs,hp,hd,ho⟩
      rw [hrows]
      exact PendingTable.mem_modifyWhere.mpr (.inl ⟨hx,hl⟩)
    | true =>
      refine .inr (.inr ⟨PendingTable.closed .expired (some "expired") stamp l,?_,ho,.inl rfl,?_⟩)
      · rw [hrows]
        exact PendingTable.mem_modifyWhere.mpr (.inr ⟨l,hl,hx,rfl⟩)
      · intro k hk hid
        rw [w.db.pending.eq_of_pendingId hk hl hid]
        exact hs
  | purge cutoff =>
    obtain ⟨l,hl,hs,hp,hd,ho⟩ := h
    exact .inl ⟨l,List.mem_filter.mpr ⟨hl,by simp [hs]⟩,hs,hp,hd,ho⟩

/-- A row that is dropped for a pending link waits after the step, unless a link of it
ended in conflict at once. -/
theorem Drops.live {w : World} {r : RowStep} (hkeep : KeepsWaiting w (.resolve r))
    (h : w.Drops r) : (w.step (.resolve r)).Live r.row ∨ Discharges r.row w (.resolve r) := by
  obtain ⟨res,hres,_,d,hd,_⟩ := h
  have hne : (w.outcome r).requests ≠ [] := fun hreq => by
    rw [ResolveCore.resolve_quiet hres hreq] at hd
    cases hd
  have hopen : ¬ (w.outcome r).closed = true := fun hc =>
    hne (r.core.resolve_closed hc).1
  obtain ⟨⟨hhome,halone⟩,_⟩ := hkeep
  rw [Discharges, step_resolve, if_neg hopen]
  have hofs := requestOf_of_outcome (w := w) (r := r)
  unfold World.requested
  cases hreqs : (w.outcome r).requests with
  | nil => exact absurd hreqs hne
  | cons req reqs =>
    have hmem : req ∈ (w.outcome r).requests := by rw [hreqs]; exact List.mem_cons_self
    have hfirst := Live.start (Later.refl w) (halone hne) (hofs req hmem) (hhome req hmem)
      r.core.settings.pendingMaxAttempts r.call.clock.now
    have hsteps : AllSteps (request r.row r.core.settings.pendingMaxAttempts r.call.clock.now)
        (fun _ req => RequestOf r req)
        (request r.row r.core.settings.pendingMaxAttempts r.call.clock.now w req) reqs :=
      allSteps_of_mem (fun q hq => hofs q (by rw [hreqs]; exact List.mem_cons_of_mem _ hq)) _
    have hrest := (run_invariant (I := fun v => Later w v ∧ (v.Live r.row ∨ EndedSince w v r.row))
      (fun _ _ hv hreq => ⟨hv.1.request hreq _ _,Live.request hv.1 hv.2 hreq _ _⟩)
      ⟨(Later.refl w).request (hofs req hmem) _ _,hfirst⟩ hsteps).2
    exact hrest.imp_right .inr

theorem KeepsWaiting.staysHome {w : World} {e : Event} (h : KeepsWaiting w e) :
    StaysHome w e := by
  cases e with
  | resolve r => exact h.1
  | sync s => trivial
  | sweep now stamp => trivial
  | purge cutoff => trivial

/-- A row that was dropped for a pending link is listed for replay after any further steps,
unless one of them emitted it or one of its links expired or ended in conflict. -/
theorem waiting_row_kept (es : List Event) (r : RowStep) (rest : List Event)
    (h : AllSteps step KeepsWaiting init (es ++ .resolve r::rest))
    (hdrop : (after es).Drops r) :
    (after (es ++ .resolve r::rest)).Listed r.row ∨
      SomeStep step (Discharges r.row) (after es) (.resolve r::rest) := by
  obtain ⟨hes,hkeep,hrest⟩ := (allSteps_append init es _).mp h
  have hinv : ∀ w e, World.Sound w ∧ Separated w → KeepsWaiting w e →
      Sound (w.step e) ∧ Separated (w.step e) :=
    fun w e hw hk => ⟨hw.1.step e,hw.2.step hk.staysHome⟩
  have hafter : Sound (after es) ∧ Separated (after es) :=
    run_invariant hinv ⟨init_sound,init_separated⟩ hes
  rcases Drops.live hkeep hdrop with hlive | hdischarge
  · rcases run_unless (H := Discharges r.row) hinv
        (fun w e _ hk hl => Live.step hl hk) (hinv _ _ hafter hkeep) hrest hlive with
      hlive | hsome
    · have hend := run_invariant hinv (hinv _ _ hafter hkeep) hrest
      refine .inl ?_
      have happ : after (es ++ .resolve r::rest) =
          run step (step (after es) (.resolve r)) rest := run_append init es _
      rw [happ]
      exact hlive.listed hend.1 hend.2
    · exact .inr (.inr hsome)
  · exact .inr (.inl hdischarge)

theorem employeeWaits_result : (init.outcome employeeWaits).result =
    .ok ⟨none,[],[diagWarning [] .resolve "RESOLVE_PENDING" (some "manager")
      (some "no candidates found for link") (some employeeWaits.call.matched.rowRef) none none]⟩ := by
  decide

theorem employeeWaits_dropped : init.Drops employeeWaits :=
  ⟨_,employeeWaits_result,rfl,_,List.mem_singleton_self _,rfl⟩

theorem employeeWaits_keeps : KeepsWaiting init (.resolve employeeWaits) := by
  refine ⟨⟨by decide,fun _ l hl => ?_⟩,fun h => absurd h (by decide)⟩
  simp [init, IdentityDb.empty, PendingTable.empty] at hl

/-- The waiting employee outlives a purge. -/
theorem waiting_row_kept_employee :
    (after [.resolve employeeWaits,.purge "2025-01-01"]).Listed employeeWaits.row ∨
      SomeStep step (Discharges employeeWaits.row) init
        [.resolve employeeWaits,.purge "2025-01-01"] :=
  waiting_row_kept [] employeeWaits [.purge "2025-01-01"] ⟨employeeWaits_keeps,trivial,trivial⟩
    employeeWaits_dropped

/-- A refresh of the cache learns the manager's identifier. -/
def managerLearned : SyncStep :=
  { syncer := ⟨[("employees",["code"])],[]⟩, dataset := "employees", resolvedId := .str "emp-1"
    keyValues := [("_id",.str "emp-1"),("code",.str "E1")], now := "2024-05-01 13:00:00" }

/-- The refresh takes the waiting employee off the replay. -/
theorem refresh_loses_waiting_row :
    ¬ ∀ (es : List Event) (r : RowStep) (rest : List Event), (after es).Drops r →
      (after (es ++ .resolve r::rest)).Listed r.row ∨
        SomeStep step (Discharges r.row) (after es) (.resolve r::rest) := by
  intro h
  have hempty : (after [.resolve employeeWaits,.sync managerLearned]).db.pending.replayLinks
      "employees" = [] := by decide
  have hpending : ∀ l ∈ (init.step (.resolve employeeWaits)).db.pending.rows,
      ¬ (l.status = .expired ∨ l.status = .conflict) := by decide
  have hresolved : ∀ l ∈ (after [.resolve employeeWaits,.sync managerLearned]).db.pending.rows,
      ¬ (l.status = .expired ∨ l.status = .conflict) := by decide
  rcases h [] employeeWaits [.sync managerLearned] employeeWaits_dropped with
    ⟨⟨l,hl,_⟩,_⟩ | (⟨_,_,hrow⟩ | ⟨l,hl,_,hend,_⟩) | (hnone | ⟨l,hl,_,hend,_⟩) | hnone
  · rw [show employeeWaits.row.dataset = "employees" from rfl, List.nil_append, hempty] at hl
    cases hl
  · have hresult := employeeWaits_result.symm.trans hrow
    cases hresult
  · exact hpending l hl hend
  · exact hnone
  · exact hresolved l hl hend
  · exact hnone

end World
end NexusEtl
