import Mathlib.Algebra.Order.BigOperators.Group.List
import Mathlib.Algebra.Order.Ring.Nat
import NexusEtl.PendingLifecycle
import NexusEtl.Planning

/-!
# One transaction, two databases

The gateway opens a transaction on the database of the cache. Pending links and
the identity index live in a database of their own, where every statement takes
effect at once, so a failure takes back the rows of the cache and nothing else,
unless both engines are one. Every write to the identity database moves it
forward, hence a failed batch leaves it as it was only if it wrote nothing.
-/

set_option autoImplicit false

namespace NexusEtl
open NexusEtl.Library

/-- What a link has been through. -/
def PendingLink.progress (l : PendingLink) : Nat :=
  l.attempts + if l.status = .pending then 0 else 1

namespace PendingTable

def progress (t : PendingTable) : Nat := t.nextId + (t.rows.map PendingLink.progress).sum

theorem progress_le_modify (t : PendingTable) {f : PendingLink → PendingLink}
    (hf : ∀ l, (f l).pendingId = l.pendingId) (h : ∀ l ∈ t.rows, l.progress ≤ (f l).progress) :
    t.progress ≤ (t.modify f hf).progress := by
  unfold progress
  rw [modify_rows, modify_nextId, List.map_map]
  exact Nat.add_le_add_left (List.sum_le_sum h) _

theorem progress_le_modifyId (t : PendingTable) (id : Nat) {f : PendingLink → PendingLink}
    (hf : ∀ l, (f l).pendingId = l.pendingId) (h : ∀ l : PendingLink, l.progress ≤ (f l).progress) :
    t.progress ≤ (t.modifyId id f hf).progress := by
  apply progress_le_modify
  intro l _
  split
  · exact h l
  · exact Nat.le_refl _

theorem progress_lt_modify (t : PendingTable) {f : PendingLink → PendingLink}
    (hf : ∀ l, (f l).pendingId = l.pendingId) (h : ∀ l ∈ t.rows, l.progress ≤ (f l).progress)
    (hlt : ∃ l ∈ t.rows, l.progress < (f l).progress) :
    t.progress < (t.modify f hf).progress := by
  unfold progress
  rw [modify_rows, modify_nextId, List.map_map]
  exact Nat.add_lt_add_left (List.sum_lt_sum _ _ h hlt) _

theorem progress_lt_modifyId {t : PendingTable} {l : PendingLink} (hl : l ∈ t.rows)
    {f : PendingLink → PendingLink} (hf : ∀ l, (f l).pendingId = l.pendingId)
    (h : ∀ l : PendingLink, l.progress < (f l).progress) :
    t.progress < (t.modifyId l.pendingId f hf).progress := by
  unfold modifyId
  apply progress_lt_modify
  · intro k _
    split
    · exact Nat.le_of_lt (h k)
    · exact Nat.le_refl _
  · refine ⟨l,hl,?_⟩
    rw [if_pos rfl]
    exact h l

theorem progress_closed {status : PendingStatus} (hs : status ≠ .pending)
    (reason : Option String) (now : String) (l : PendingLink) :
    (closed status reason now l).progress = l.attempts + 1 := by
  simp [PendingLink.progress, closed, hs]

theorem progress_le_closed {status : PendingStatus} (hs : status ≠ .pending)
    (reason : Option String) (now : String) (l : PendingLink) :
    l.progress ≤ (closed status reason now l).progress := by
  rw [progress_closed hs, PendingLink.progress]
  split <;> omega

/-- A statement that closes open links: none is met and nothing changes, or it is progress. -/
theorem closing_progress (t : PendingTable) (p : PendingLink → Bool) (status : PendingStatus)
    (hs : status ≠ .pending) (hp : ∀ l, p l = true → l.status = .pending)
    (reason : Option String) (now : String) :
    ((∀ l ∈ t.rows, p l = false) ∧
        t.modifyWhere p (closed status reason now) (closed_pendingId _ _ _) = t) ∨
      ((¬ ∀ l ∈ t.rows, p l = false) ∧ t.progress <
        (t.modifyWhere p (closed status reason now) (closed_pendingId _ _ _)).progress) := by
  by_cases hnone : ∀ l ∈ t.rows, p l = false
  · left
    refine ⟨hnone,ext_rows ?_ rfl⟩
    rw [modifyWhere, modify_rows]
    conv => rhs; rw [← List.map_id t.rows]
    exact List.map_congr_left fun l hl => by simp [hnone l hl]
  · right
    refine ⟨hnone,?_⟩
    apply progress_lt_modify
    · intro l _
      split
      · exact progress_le_closed hs reason now l
      · exact Nat.le_refl _
    · simp only [not_forall] at hnone
      obtain ⟨l,hl,hpl⟩ := hnone
      have hpl' : p l = true := by simpa using hpl
      refine ⟨l,hl,?_⟩
      rw [if_pos hpl', progress_closed hs, PendingLink.progress, if_pos (hp l hpl')]
      omega

theorem progress_lt_touchAttempt {t : PendingTable} {l : PendingLink} (hl : l ∈ t.rows)
    (now : String) : t.progress < (t.touchAttempt l.pendingId now).1.progress := by
  have htouched : ∀ k : PendingLink, k.progress < (touched now k).progress := by
    intro k
    show k.attempts + (if k.status = .pending then 0 else 1) <
      k.attempts + 1 + (if k.status = .pending then 0 else 1)
    omega
  exact progress_lt_modifyId hl (touched_pendingId now) htouched

/-- Every request is progress: at least it is counted. -/
theorem progress_lt_request (t : PendingTable) (maxAttempts : Int) {req : PendingRequest}
    (now : String) (hp : req.payload.isSome) :
    t.progress < (t.request maxAttempts req now).1.progress := by
  have hadded : t.progress ≤ (t.addPending req now).1.progress := by
    unfold addPending
    split
    · dsimp only
      split
      · exact t.progress_le_modifyId _ _ fun _ => Nat.le_refl _
      · exact Nat.le_refl _
    · simp only [progress, insert, List.map_append, List.sum_append]
      omega
  obtain ⟨m,hid,_,hm⟩ := t.addPending_spec req now hp
  have htouched := progress_lt_touchAttempt hm.mem now
  rw [hid] at htouched
  have hall := Nat.lt_of_le_of_lt hadded htouched
  unfold request
  dsimp only
  split
  · exact Nat.lt_of_lt_of_le hall (progress_le_modifyId _ _
      (closed_pendingId _ _ _) (progress_le_closed (by decide) _ now))
  · exact hall

end PendingTable

namespace IdentityDb

/-- How far the database has come: its entries and what its links have been through. -/
def progress (db : IdentityDb) : Nat := db.index.length + db.pending.progress

theorem ext {db db' : IdentityDb} (hi : db.index = db'.index) (hp : db.pending = db'.pending) :
    db = db' := by
  cases db
  cases db'
  cases hi
  cases hp
  rfl

theorem upsert_known (db : IdentityDb) {entries : List IdentityEntry}
    (h : ∀ entry ∈ entries, entry ∈ db.index) : entries.foldl upsertIdentity db = db := by
  induction entries with
  | nil => rfl
  | cons entry entries ih =>
    have hsame : db.upsertIdentity entry = db := if_pos (h entry List.mem_cons_self)
    rw [List.foldl_cons, hsame]
    exact ih fun e he => h e (List.mem_cons_of_mem _ he)

theorem length_le_upsert (db : IdentityDb) (entries : List IdentityEntry) :
    db.index.length ≤ (entries.foldl upsertIdentity db).index.length := by
  induction entries generalizing db with
  | nil => exact Nat.le_refl _
  | cons entry entries ih =>
    refine Nat.le_trans ?_ (ih _)
    unfold upsertIdentity
    split
    · exact Nat.le_refl _
    · simp

theorem length_lt_upsert (db : IdentityDb) {entries : List IdentityEntry}
    (h : ¬ ∀ entry ∈ entries, entry ∈ db.index) :
    db.index.length < (entries.foldl upsertIdentity db).index.length := by
  induction entries generalizing db with
  | nil => simp at h
  | cons entry entries ih =>
    rw [List.foldl_cons]
    by_cases hmem : entry ∈ db.index
    · have hsame : db.upsertIdentity entry = db := if_pos hmem
      rw [hsame]
      apply ih
      simpa [hmem] using h
    · refine Nat.lt_of_lt_of_le ?_ (length_le_upsert _ entries)
      simp [upsertIdentity, hmem]

/-- The record is in the index under its keys, and no link waits for one of them. -/
def Knows (db : IdentityDb) (syncer : IdentityIndexSyncer) (dataset : String)
    (resolvedId : Value) (keyValues : Fields) : Prop :=
  (∀ entry ∈ syncer.entries dataset resolvedId keyValues, entry ∈ db.index) ∧
    ∀ l ∈ db.pending.rows, syncer.closes dataset resolvedId keyValues l = false

/-- A sync: nothing is new and nothing changes, or it is progress. -/
theorem sync_progress (syncer : IdentityIndexSyncer) (db : IdentityDb) (dataset : String)
    (resolvedId : Value) (keyValues : Fields) (now : String) :
    (db.Knows syncer dataset resolvedId keyValues ∧
        syncer.sync db dataset resolvedId keyValues now = db) ∨
      (¬ db.Knows syncer dataset resolvedId keyValues ∧
        db.progress < (syncer.sync db dataset resolvedId keyValues now).progress) := by
  have hindex := syncer.sync_index db dataset resolvedId keyValues now
  have hpending := syncer.sync_pending db dataset resolvedId keyValues now
  have hclosing := db.pending.closing_progress (syncer.closes dataset resolvedId keyValues)
    .resolved (by decide)
    (fun l hl => by simp [IdentityIndexSyncer.closes] at hl; exact hl.1.2) none now
  rw [← hpending] at hclosing
  have hlength := db.length_le_upsert (syncer.entries dataset resolvedId keyValues)
  rw [← hindex] at hlength
  unfold progress Knows
  by_cases hknown : ∀ entry ∈ syncer.entries dataset resolvedId keyValues, entry ∈ db.index
  · rcases hclosing with ⟨hnone,hsame⟩ | ⟨hsome,hlt⟩
    · left
      refine ⟨⟨hknown,hnone⟩,ext ?_ hsame⟩
      rw [hindex, db.upsert_known hknown]
    · right
      exact ⟨fun h => hsome h.2,by omega⟩
  · right
    have hlt := db.length_lt_upsert hknown
    rw [← hindex] at hlt
    refine ⟨fun h => hknown h.1,?_⟩
    rcases hclosing with ⟨_,hsame⟩ | ⟨_,hmore⟩
    · rw [hsame]
      omega
    · omega

end IdentityDb
namespace ResolveCore

theorem requests_progress (maxAttempts : Int) (now : String) (t : PendingTable)
    {reqs : List PendingRequest} (h : ∀ req ∈ reqs, req.payload.isSome) :
    (reqs = [] ∧ run (requestStep maxAttempts now) t reqs = t) ∨
      (reqs ≠ [] ∧ t.progress < (run (requestStep maxAttempts now) t reqs).progress) := by
  induction reqs generalizing t with
  | nil => exact .inl ⟨rfl,rfl⟩
  | cons req reqs ih =>
    right
    refine ⟨by simp,?_⟩
    have hfirst : t.progress < (requestStep maxAttempts now t req).progress :=
      t.progress_lt_request maxAttempts now (h req List.mem_cons_self)
    rcases ih (requestStep maxAttempts now t req) (fun r hr => h r (List.mem_cons_of_mem _ hr))
      with ⟨_,hsame⟩ | ⟨_,hlt⟩
    · rw [run, hsame]
      exact hfirst
    · exact Nat.lt_trans hfirst hlt

theorem payload_isSome (core : ResolveCore) (db : IdentityDb) (call : ResolveCall) :
    ∀ req ∈ (core.resolve db call).requests, req.payload.isSome := by
  intro req hreq
  obtain ⟨rule,_,key,desired,rfl⟩ := core.resolve_requests db call req hreq
  rfl

/-- The row asks for no pending link, and there is none that it would close. -/
def WritesNothing (core : ResolveCore) (db : IdentityDb) (call : ResolveCall) : Prop :=
  (core.resolve db call).requests = [] ∧ ((core.resolve db call).closed = true →
    ∀ l ∈ db.pending.rows, PendingTable.isPendingOf call.rowId l = false)

/-- One row: it writes nothing and nothing changes, or it is progress. -/
theorem resolve_progress (core : ResolveCore) (db : IdentityDb) (call : ResolveCall) :
    (core.WritesNothing db call ∧ (core.resolve db call).pending = db.pending) ∨
      (¬ core.WritesNothing db call ∧
        db.pending.progress < (core.resolve db call).pending.progress) := by
  have hpending := core.resolve_pending db call
  dsimp only at hpending
  have hclosing : ∀ t : PendingTable,
      ((∀ l ∈ t.rows, PendingTable.isPendingOf call.rowId l = false) ∧
        t.markResolvedForSource call.rowId call.clock.now = t) ∨
      ((¬ ∀ l ∈ t.rows, PendingTable.isPendingOf call.rowId l = false) ∧
        t.progress < (t.markResolvedForSource call.rowId call.clock.now).progress) := fun t =>
    t.closing_progress (PendingTable.isPendingOf call.rowId) .resolved (by decide)
      (fun l hl => by simp [PendingTable.isPendingOf] at hl; exact hl.2) none call.clock.now
  unfold WritesNothing
  rcases requests_progress core.settings.pendingMaxAttempts call.clock.now db.pending
    (core.payload_isSome db call) with
    ⟨hnil,hsame⟩ | ⟨hne,hlt⟩
  · rw [hsame] at hpending
    by_cases hclosed : (core.resolve db call).closed = true
    · rw [if_pos hclosed] at hpending
      rw [hpending]
      rcases hclosing db.pending with ⟨hnone,hkept⟩ | ⟨hsome,hmore⟩
      · exact .inl ⟨⟨hnil,fun _ => hnone⟩,hkept⟩
      · exact .inr ⟨fun h => hsome (h.2 hclosed),hmore⟩
    · rw [if_neg hclosed] at hpending
      exact .inl ⟨⟨hnil,fun h => absurd h hclosed⟩,hpending⟩
  · refine .inr ⟨fun h => hne h.1,?_⟩
    rw [hpending]
    split
    · rcases hclosing (run (requestStep core.settings.pendingMaxAttempts call.clock.now)
        db.pending (core.resolve db call).requests) with ⟨_,hkept⟩ | ⟨_,hmore⟩
      · rw [hkept]
        exact hlt
      · exact Nat.lt_trans hlt hmore
    · exact hlt

end ResolveCore

/-- What a failure leaves behind: the rows that were resolved, and of the next row the
pending links that it had asked for. -/
structure BatchFailure where
  rows : Nat
  requests : Nat
  exc : PyException
  deriving DecidableEq, Repr

/-- What happens to the identity database in a batch. -/
inductive BatchStep
  | row (tick : Tick) (m : TransformResult MatchedRow)
  | broken (clock : Clock) (m : TransformResult MatchedRow) (requests : Nat)

namespace ResolveStage

variable (stage : ResolveStage)

/-- A row whose resolution broke off. -/
def breakOff (clock : Clock) (requests : Nat) (db : IdentityDb)
    (m : TransformResult MatchedRow) : IdentityDb :=
  match m.row with
  | none => db
  | some row =>
    let made := (stage.resolver.resolve db (stage.callOf m row clock)).requests.take requests
    let step := requestStep stage.resolver.settings.pendingMaxAttempts clock.now
    { db with pending := run step db.pending made }

def batchStep (db : IdentityDb) : BatchStep → IdentityDb
  | .row tick m => sweepTick tick (stage.resolveRow tick.clock db m).2
  | .broken clock m requests => stage.breakOff clock requests db m

/-- The identity database when the failure of a batch escapes. -/
def failedAt (schedule : Nat → Tick) (db : IdentityDb) (batch : List (TransformResult MatchedRow))
    (f : BatchFailure) : IdentityDb :=
  let resolved := (stage.resolveStream schedule 0 db (batch.take f.rows)).2
  match batch[f.rows]? with
  | none => resolved
  | some m => stage.breakOff (schedule f.rows).clock f.requests resolved m

def rowSteps (schedule : Nat → Tick) (n : Nat) (rows : List (TransformResult MatchedRow)) :
    List BatchStep :=
  (rows.zipIdx n).map fun x => .row (schedule x.2) x.1

def failedSteps (schedule : Nat → Tick) (batch : List (TransformResult MatchedRow))
    (f : BatchFailure) : List BatchStep :=
  rowSteps schedule 0 (batch.take f.rows) ++
    (batch[f.rows]?).toList.map fun m => .broken (schedule f.rows).clock m f.requests

theorem resolveStream_run (schedule : Nat → Tick) (n : Nat) (db : IdentityDb)
    (rows : List (TransformResult MatchedRow)) :
    (stage.resolveStream schedule n db rows).2 = run stage.batchStep db (rowSteps schedule n rows) := by
  induction rows generalizing n db with
  | nil => rfl
  | cons m rows ih => exact ih (n+1) _

theorem failedAt_run (schedule : Nat → Tick) (db : IdentityDb)
    (batch : List (TransformResult MatchedRow)) (f : BatchFailure) :
    stage.failedAt schedule db batch f = run stage.batchStep db (failedSteps schedule batch f) := by
  unfold failedAt failedSteps
  rw [run_append, resolveStream_run]
  cases batch[f.rows]? <;> rfl

/-- The row, when there is one, has nothing to write. -/
def RowIdle (clock : Clock) (db : IdentityDb) (m : TransformResult MatchedRow) : Prop :=
  ∀ row, m.row = some row → stage.resolver.WritesNothing db (stage.callOf m row clock)

/-- The step has nothing to write. -/
def Idle (db : IdentityDb) : BatchStep → Prop
  | .row tick m => stage.RowIdle tick.clock db m ∧
      ∀ sweep ∈ tick.sweep, ∀ l ∈ db.pending.rows, PendingTable.isExpired sweep.1 l = false
  | .broken clock m requests => requests = 0 ∨ ∀ row, m.row = some row →
      (stage.resolver.resolve db (stage.callOf m row clock)).requests = []

variable {stage}

theorem resolveRow_progress (clock : Clock) (db : IdentityDb) (m : TransformResult MatchedRow) :
    (stage.RowIdle clock db m ∧ (stage.resolveRow clock db m).2 = db) ∨
      (¬ stage.RowIdle clock db m ∧ db.progress < (stage.resolveRow clock db m).2.progress) := by
  cases hrow : m.row with
  | none => exact .inl ⟨by simp [RowIdle, hrow],by simp [resolveRow, hrow]⟩
  | some row =>
    have hidle : stage.RowIdle clock db m ↔
        stage.resolver.WritesNothing db (stage.callOf m row clock) := by
      simp [RowIdle, hrow]
    have hresolved : (stage.resolveRow clock db m).2 = { db with pending :=
        (stage.resolver.resolve db (stage.callOf m row clock)).pending } := by
      simp [resolveRow, hrow]
    rw [hidle, hresolved]
    rcases stage.resolver.resolve_progress db (stage.callOf m row clock) with
      ⟨hquiet,hsame⟩ | ⟨hbusy,hlt⟩
    · exact .inl ⟨hquiet,IdentityDb.ext rfl hsame⟩
    · exact .inr ⟨hbusy,Nat.add_lt_add_left hlt _⟩

theorem sweepTick_progress (tick : Tick) (db : IdentityDb) :
    ((∀ sweep ∈ tick.sweep, ∀ l ∈ db.pending.rows, PendingTable.isExpired sweep.1 l = false) ∧
        sweepTick tick db = db) ∨
      ((¬ ∀ sweep ∈ tick.sweep, ∀ l ∈ db.pending.rows, PendingTable.isExpired sweep.1 l = false) ∧
        db.progress < (sweepTick tick db).progress) := by
  unfold sweepTick
  cases tick.sweep with
  | none => exact .inl ⟨by simp,rfl⟩
  | some sweep =>
    have hclosing := db.pending.closing_progress (PendingTable.isExpired sweep.1) .expired
      (by decide)
      (fun l hl => by simp [PendingTable.isExpired] at hl; exact hl.1) (some "expired") sweep.2
    have hidle : (∀ s ∈ some sweep, ∀ l ∈ db.pending.rows, PendingTable.isExpired s.1 l = false) ↔
        ∀ l ∈ db.pending.rows, PendingTable.isExpired sweep.1 l = false := by simp
    rw [hidle]
    rcases hclosing with ⟨hnone,hsame⟩ | ⟨hsome,hlt⟩
    · exact .inl ⟨hnone,IdentityDb.ext rfl hsame⟩
    · exact .inr ⟨hsome,Nat.add_lt_add_left hlt _⟩

theorem breakOff_progress (clock : Clock) (requests : Nat) (db : IdentityDb)
    (m : TransformResult MatchedRow) :
    (stage.Idle db (.broken clock m requests) ∧ stage.breakOff clock requests db m = db) ∨
      (¬ stage.Idle db (.broken clock m requests) ∧
        db.progress < (stage.breakOff clock requests db m).progress) := by
  cases hrow : m.row with
  | none => exact .inl ⟨.inr (by simp [hrow]),by simp [breakOff, hrow]⟩
  | some row =>
    let made := (stage.resolver.resolve db (stage.callOf m row clock)).requests.take requests
    have hidle : stage.Idle db (.broken clock m requests) ↔ made = [] := by
      simp [Idle, hrow, made, List.take_eq_nil_iff]
    let step := requestStep stage.resolver.settings.pendingMaxAttempts clock.now
    have hbroken : stage.breakOff clock requests db m =
        { db with pending := run step db.pending made } := by
      simp [breakOff, hrow, made, step]
    rw [hidle, hbroken]
    have hpayload : ∀ req ∈ made, req.payload.isSome := fun req hreq =>
      stage.resolver.payload_isSome db _ req (List.mem_of_mem_take hreq)
    rcases ResolveCore.requests_progress _ clock.now db.pending hpayload with ⟨hnil,hsame⟩ | ⟨hne,hlt⟩
    · exact .inl ⟨hnil,IdentityDb.ext rfl hsame⟩
    · exact .inr ⟨hne,Nat.add_lt_add_left hlt _⟩

theorem batchStep_progress (db : IdentityDb) (e : BatchStep) :
    (stage.Idle db e ∧ stage.batchStep db e = db) ∨
      (¬ stage.Idle db e ∧ db.progress < (stage.batchStep db e).progress) := by
  cases e with
  | broken clock m requests => exact breakOff_progress clock requests db m
  | row tick m =>
    have hidle : stage.Idle db (.row tick m) ↔ stage.RowIdle tick.clock db m ∧
        ∀ sweep ∈ tick.sweep, ∀ l ∈ db.pending.rows, PendingTable.isExpired sweep.1 l = false :=
      Iff.rfl
    have hstep : stage.batchStep db (.row tick m) =
      sweepTick tick (stage.resolveRow tick.clock db m).2 := rfl
    rw [hidle, hstep]
    rcases stage.resolveRow_progress tick.clock db m with ⟨hquiet,hsame⟩ | ⟨hbusy,hlt⟩
    · rw [hsame]
      rcases sweepTick_progress tick db with ⟨hnone,hswept⟩ | ⟨hsome,hlt⟩
      · exact .inl ⟨⟨hquiet,hnone⟩,hswept⟩
      · exact .inr ⟨fun h => hsome h.2,hlt⟩
    · refine .inr ⟨fun h => hbusy h.1,?_⟩
      rcases sweepTick_progress tick (stage.resolveRow tick.clock db m).2 with
        ⟨_,hswept⟩ | ⟨_,hmore⟩
      · rw [hswept]
        exact hlt
      · exact Nat.lt_trans hlt hmore

/-- A failed batch leaves the identity database as it was if and only if it had written
nothing to it. -/
theorem failedAt_eq_iff (schedule : Nat → Tick) (db : IdentityDb)
    (batch : List (TransformResult MatchedRow)) (f : BatchFailure) :
    stage.failedAt schedule db batch f = db ↔
      ∀ e ∈ failedSteps schedule batch f, stage.Idle db e := by
  rw [failedAt_run]
  exact run_eq_self_iff_idle IdentityDb.progress stage.batchStep_progress db _

end ResolveStage
/-- The contents of the two databases behind a gateway. -/
@[ext] structure Stores (C : Type) where
  cache : C
  identity : IdentityDb

/-- The gateway, and whether its cache engine and its identity engine are one object. -/
structure SqliteCacheGateway where
  sharedEngine : Bool
  deriving DecidableEq, Repr

namespace SqliteCacheGateway

variable {C R : Type}

/-- `transaction`: the rollback reaches the engine of the cache. -/
def transaction (gateway : SqliteCacheGateway) (body : Stores C → Except PyException R × Stores C)
    (s : Stores C) : Except PyException R × Stores C :=
  match body s with
  | (.ok result,after) => (.ok result,after)
  | (.error exc,after) =>
    (.error exc,if gateway.sharedEngine then s else { after with cache := s.cache })

/-- One micro-batch of `_iter_resolved`, which a failure may break off. -/
def resolveBatch (gateway : SqliteCacheGateway) (stage : ResolveStage) (schedule : Nat → Tick)
    (batch : List (TransformResult MatchedRow)) (failure : Option BatchFailure) (s : Stores C) :
    Except PyException (List (TransformResult ResolvedRow)) × Stores C :=
  gateway.transaction (fun s => match failure with
    | none =>
      let (results,identity) := stage.resolveStream schedule 0 s.identity batch
      (.ok results,{ s with identity := identity })
    | some f =>
      (.error f.exc,{ s with identity := stage.failedAt schedule s.identity batch f })) s

theorem resolveBatch_failed (gateway : SqliteCacheGateway) (stage : ResolveStage)
    (schedule : Nat → Tick) (batch : List (TransformResult MatchedRow)) (f : BatchFailure)
    (s : Stores C) :
    (gateway.resolveBatch stage schedule batch (some f) s).2.identity = s.identity ↔
      gateway.sharedEngine = true ∨
        ∀ e ∈ ResolveStage.failedSteps schedule batch f, stage.Idle s.identity e := by
  rw [← ResolveStage.failedAt_eq_iff]
  unfold resolveBatch transaction
  dsimp only
  by_cases hshared : gateway.sharedEngine = true
  · simp [hshared]
  · simp [hshared]

end SqliteCacheGateway
end NexusEtl
