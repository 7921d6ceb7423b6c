import NexusEtl.History

/-!
# Links that expire after they were answered

A record of a link that waits is closed with the row, or when its key becomes
known to the index. Beside the world the ledger holds what the sweeps returned
and the use case has not reported yet, and for each link of a row whether the
last attempt that looked it up answered it. Records that are swept or reported
should be those of links that were not answered.
-/

set_option autoImplicit false

namespace NexusEtl
open NexusEtl.Library

/-- The attempt left the link of a field pending. -/
def ResolveOutcome.requestsField (o : ResolveOutcome) (field : String) : Bool :=
  o.requests.any fun req => req.field == field

/-- The attempt answered the link of a field. -/
def ResolveOutcome.answersField (o : ResolveOutcome) (field : String) : Bool :=
  o.hits.any (fun hit => hit.rule.field == field) && !o.requestsField field

structure LinkLedger where
  world : World
  held : List PendingLink
  answered : String → String → Bool

/-- What happens to the database, and the report of what the sweeps returned. -/
inductive LinkEvent
  | event (e : Event)
  | report

namespace LinkLedger

def init : LinkLedger := ⟨World.init,[],fun _ _ => false⟩

/-- The links of the row of an attempt that it looked up, as it leaves them. -/
def attempt (answered : String → String → Bool) (rowId : String) (o : ResolveOutcome) :
    String → String → Bool :=
  fun row field =>
    if row = rowId then
      if o.requestsField field then false else o.answersField field || answered row field
    else answered row field

/-- The links that an event of the database returns as expired. -/
def swept (s : LinkLedger) : Event → List PendingLink
  | .sweep now stamp => (s.world.db.pending.sweepExpired now (some "expired") stamp).2
  | _ => []

def step (s : LinkLedger) : LinkEvent → LinkLedger
  | .event e =>
    { world := s.world.step e
      held := s.held ++ s.swept e
      answered := match e with
        | .resolve r => attempt s.answered r.call.rowId (s.world.outcome r)
        | _ => s.answered }
  | .report => { s with held := [] }

/-- No link in the list was answered by the last attempt that looked it up. -/
def Unanswered (s : LinkLedger) (links : List PendingLink) : Prop :=
  ∀ l ∈ links, s.answered l.sourceRowId l.field = false

/-- What is swept and what is reported as expired is unresolved. -/
def ExpiresUnresolved (s : LinkLedger) : LinkEvent → Prop
  | .event e => s.Unanswered (s.swept e)
  | .report => s.Unanswered s.held

instance (s : LinkLedger) : ∀ e, Decidable (s.ExpiresUnresolved e)
  | .event e => inferInstanceAs (Decidable (∀ l ∈ s.swept e, _))
  | .report => inferInstanceAs (Decidable (∀ l ∈ s.held, _))

/-- An attempt that answers a link of which a record is open resolves its row, and no record
of the link waits to be reported. -/
def ClosesAnswered (s : LinkLedger) : LinkEvent → Prop
  | .event (.resolve r) => ∀ field, (s.world.outcome r).answersField field = true →
      ((∃ l ∈ s.world.db.pending.rows, l.status = .pending ∧ l.sourceRowId = r.call.rowId ∧
          l.field = field) → (s.world.outcome r).closed = true) ∧
        ∀ l ∈ s.held, ¬ (l.sourceRowId = r.call.rowId ∧ l.field = field)
  | _ => True

/-- Open records and records to be reported belong to links that were not answered. -/
structure Honest (s : LinkLedger) : Prop where
  isOpen : ∀ l ∈ s.world.db.pending.rows, l.status = .pending →
    s.answered l.sourceRowId l.field = false
  held : s.Unanswered s.held

/-- The requests of an attempt leave the old records, and records of their fields. -/
theorem requested_rows {maxAttempts : Int} {now : String} {reqs : List PendingRequest}
    (hreqs : ∀ req ∈ reqs, req.payload.isSome) {t : PendingTable} {l : PendingLink}
    (hl : l ∈ (run (requestStep maxAttempts now) t reqs).rows) :
    l ∈ t.rows ∨ ∃ req ∈ reqs, l.sourceRowId = req.sourceRowId ∧ l.field = req.field := by
  induction reqs generalizing t with
  | nil => exact .inl hl
  | cons req reqs ih =>
    rcases ih (fun r hr => hreqs r (List.mem_cons_of_mem _ hr)) hl with hold | ⟨r,hr,hrow⟩
    · obtain ⟨m,-,hm⟩ := t.request_spec maxAttempts req now (hreqs req List.mem_cons_self)
      by_cases hid : l.pendingId = m.pendingId
      · have hsame := PendingTable.eq_of_pendingId _ hold hm.mem hid
        exact .inr ⟨req,List.mem_cons_self,by rw [hsame]; exact hm.sourceRowId,
          by rw [hsame]; exact hm.field⟩
      · exact .inl ((hm.others l hid).mp hold)
    · exact .inr ⟨r,List.mem_cons_of_mem _ hr,hrow⟩

/-- An open record after an attempt: the row was not closed, and the record was open before or
is one that the attempt requested. -/
theorem open_after_attempt {w : World} {r : RowStep} {l : PendingLink}
    (hl : l ∈ (w.step (.resolve r)).db.pending.rows) (hopen : l.status = .pending) :
    (l.sourceRowId = r.call.rowId → (w.outcome r).closed = false) ∧
      (l ∈ w.db.pending.rows ∨
        l.sourceRowId = r.call.rowId ∧ (w.outcome r).requestsField l.field = true) := by
  have hreqs : ∀ req ∈ (w.outcome r).requests, req.payload.isSome :=
    fun req hreq => (World.requestOf_of_outcome req hreq).isSome
  have hold {m : PendingLink} (hm : m ∈ (w.requested r).db.pending.rows) :
      m ∈ w.db.pending.rows ∨
        m.sourceRowId = r.call.rowId ∧ (w.outcome r).requestsField m.field = true := by
    rw [World.requested, World.run_request] at hm
    rcases requested_rows hreqs hm with hm | ⟨req,hreq,hrow,hfield⟩
    · exact .inl hm
    · refine .inr ⟨hrow.trans (World.requestOf_of_outcome req hreq).sourceRowId,?_⟩
      exact List.any_eq_true.mpr ⟨req,hreq,by simp [hfield]⟩
  rw [World.step_resolve] at hl
  cases hclosed : (w.outcome r).closed with
  | false =>
    rw [hclosed] at hl
    exact ⟨fun _ => rfl,hold hl⟩
  | true =>
    rw [hclosed, if_pos rfl] at hl
    obtain ⟨hother,hl⟩ := PendingTable.open_of_closing hl hopen (by decide)
    refine ⟨fun hrow => ?_,hold hl⟩
    rw [PendingTable.isPendingOf, hrow, hopen] at hother
    simp at hother

/-- Events other than an attempt open no record. -/
theorem open_before {w : World} {e : Event} (he : ∀ r, e ≠ .resolve r) {l : PendingLink}
    (hl : l ∈ (w.step e).db.pending.rows) (hopen : l.status = .pending) :
    l ∈ w.db.pending.rows := by
  cases e with
  | resolve r => exact absurd rfl (he r)
  | sync s =>
    have hrows := s.syncer.sync_pending w.db s.dataset s.resolvedId s.keyValues s.now
    have hclosing :
        l ∈ (s.syncer.sync w.db s.dataset s.resolvedId s.keyValues s.now).pending.rows := hl
    rw [hrows] at hclosing
    exact (PendingTable.open_of_closing hclosing hopen (by decide)).2
  | sweep now stamp => exact (PendingTable.open_of_closing hl hopen (by decide)).2
  | purge cutoff => exact (List.mem_filter.mp hl).1

theorem swept_open {s : LinkLedger} {e : Event} {l : PendingLink} (hl : l ∈ s.swept e) :
    l ∈ s.world.db.pending.rows ∧ l.status = .pending := by
  cases e with
  | sweep now stamp =>
    obtain ⟨hmem,hexpired⟩ := List.mem_filter.mp hl
    simp only [PendingTable.isExpired, Bool.and_eq_true, beq_iff_eq] at hexpired
    exact ⟨hmem,hexpired.1⟩
  | resolve r => cases hl
  | sync s => cases hl
  | purge cutoff => cases hl

theorem Honest.unanswered_swept {s : LinkLedger} (h : s.Honest) (e : Event) :
    s.Unanswered (s.swept e) :=
  fun l hl => h.isOpen l (swept_open hl).1 (swept_open hl).2

/-- An attempt leaves a link unanswered that was unanswered and that it did not answer. -/
theorem attempt_eq_false {answered : String → String → Bool} {rowId : String}
    {o : ResolveOutcome} {row field : String} (h : answered row field = false)
    (hnot : row = rowId → o.answersField field = false) :
    attempt answered rowId o row field = false := by
  unfold attempt
  split
  · next hrow =>
    split
    · rfl
    · rw [hnot hrow, h]
      rfl
  · exact h

theorem Honest.attempt {s : LinkLedger} (h : s.Honest) {r : RowStep}
    (hcloses : s.ClosesAnswered (.event (.resolve r))) :
    (s.step (.event (.resolve r))).Honest := by
  constructor
  · intro l hl hopen
    obtain ⟨hclosed,hold⟩ := open_after_attempt hl hopen
    rcases hold with hmem | ⟨hrow,hrequested⟩
    · apply attempt_eq_false (h.isOpen l hmem hopen)
      intro hrow
      apply Bool.eq_false_iff.mpr
      intro hanswered
      have hrow_closed := (hcloses l.field hanswered).1 ⟨l,hmem,hopen,hrow,rfl⟩
      rw [hclosed hrow] at hrow_closed
      cases hrow_closed
    · show LinkLedger.attempt s.answered r.call.rowId (s.world.outcome r) _ _ = false
      unfold LinkLedger.attempt
      rw [if_pos hrow, if_pos hrequested]
  · intro l hl
    have hheld : l ∈ s.held := by simpa [step, swept] using hl
    apply attempt_eq_false (h.held l hheld)
    intro hrow
    apply Bool.eq_false_iff.mpr
    intro hanswered
    exact (hcloses l.field hanswered).2 l hheld ⟨hrow,rfl⟩

theorem Honest.step {s : LinkLedger} (h : s.Honest) (e : LinkEvent)
    (hcloses : s.ClosesAnswered e) : (s.step e).Honest := by
  cases e with
  | report => exact ⟨h.isOpen,fun l hl => (List.not_mem_nil hl).elim⟩
  | event e =>
    by_cases hresolve : ∃ r, e = .resolve r
    · obtain ⟨r,rfl⟩ := hresolve
      exact h.attempt hcloses
    · have hsame : (s.step (.event e)).answered = s.answered := by
        cases e with
        | resolve r => exact absurd ⟨r,rfl⟩ hresolve
        | _ => rfl
      constructor
      · intro l hl hopen
        rw [hsame]
        exact h.isOpen l (open_before (fun r he => hresolve ⟨r,he⟩) hl hopen) hopen
      · intro l hl
        rw [hsame]
        rcases List.mem_append.mp hl with hl | hl
        · exact h.held l hl
        · exact h.unanswered_swept e l hl

theorem init_honest : init.Honest :=
  ⟨fun _ hl => (List.not_mem_nil hl).elim,fun _ hl => (List.not_mem_nil hl).elim⟩

/-- In a history whose attempts close what they answer, only unresolved links are swept and
reported as expired. -/
theorem expired_is_unresolved {es : List LinkEvent}
    (h : AllSteps step ClosesAnswered init es) : AllSteps step ExpiresUnresolved init es := by
  refine allSteps_of_invariant (I := Honest) (fun s e hs hcloses => hs.step e hcloses) ?_
    init_honest h
  intro s e hs _
  cases e with
  | event e => exact hs.unanswered_swept e
  | report => exact hs.held

/-- An employee that waits for its manager and for its unit. -/
def joining (batchIndex : BatchIndex) : RowStep where
  dataset := "employees"
  source := "hr.csv"
  core := { plainCore [codeLink "manager" "employees", codeLink "unit" "organizations"] with
    settings := ⟨86400,0,false⟩ }
  call := { callOn (newRow 2 "line:2" "E1" (.str "emp-1")
      [("manager",.str "M1"),("unit",.str "U1")]) with batchIndex := batchIndex }
  replayable := newRow_replayable 2 (.str "emp-1") _ (by decide) (by decide)

def nextWeek : Event := .sweep "2024-05-08T12:00:00+00:00" "2024-05-08 12:00:00"

def bothInBatch : BatchIndex := [("code:M1",["emp-7"]),("code:U1",["org-3"])]

/-- The second attempt finds the manager and the unit in its batch, and closes their records. -/
theorem expired_is_unresolved_joining :
    AllSteps step ExpiresUnresolved init
      [.event (.resolve (joining [])),.event (.resolve (joining bothInBatch)),.event nextWeek,
        .report] := by
  have hnone : (init.world.outcome (joining [])).hits = [] := by decide
  have hclosed : ((init.step (.event (.resolve (joining [])))).world.outcome
      (joining bothInBatch)).closed = true := by decide
  refine expired_is_unresolved ⟨fun field hfield => ?_,
    fun field _ => ⟨fun _ => hclosed,fun l hl => (List.not_mem_nil hl).elim⟩,
    trivial,trivial,trivial⟩
  rw [ResolveOutcome.answersField, hnone] at hfield
  cases hfield

/-- The second attempt finds the manager in its batch, while the unit still waits: the record
of the manager stays open, and the sweep returns it. -/
theorem answered_link_expires :
    ¬ AllSteps step ExpiresUnresolved init
      [.event (.resolve (joining [])),
        .event (.resolve (joining [("code:M1",["emp-7"])])),.event nextWeek,.report] := by
  decide

end LinkLedger
end NexusEtl
